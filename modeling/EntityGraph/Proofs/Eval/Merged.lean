import EntityGraph.Proofs.Eval.Ranked
import EntityGraph.Eval.Sorting.Merge

/-!
# Merging ranked runs

Two runs in order are merged from the front or from the back, one element at a time or in strides
that leave out comparisons. All of these ways take the elements in one order, which the library's
merge tells: a step takes a number of elements off one run, and the elements taken so far together
with the merge of what is left are the same before and after it. So a merge only has to end, and its
result is known.

From the front, an element of the left run goes before one of its rank in the right run; from the
back it is taken after it. Either way it ends up in front.
-/

namespace EntityGraph.Sorting

variable {α : Type}

theorem decide_lt (a b : Int) : decide (a < b) = !decide (b ≤ a) := by
  rw [← decide_not]
  simp only [Int.not_le]

theorem ok_bind {β γ : Type} (b : β) (f : β → Outcome γ) : (Except.ok b >>= f) = f b := rfl

theorem getLast?_of_drop {xs : List α} {n : Nat} {x : α} (h : (xs.drop n).getLast? = some x) :
    xs.getLast? = some x := by
  rw [List.getLast?_drop] at h
  split at h
  · cases h
  · exact h

namespace Merge

/-- Whether an element of the left run is taken before one of the right run. Of elements of one
rank, those of the left run are in front, so they are the later ones to be taken from the back. -/
def takesLeft (m : Merge α) (rank : α → Int) (x y : α) : Bool :=
  if m.forwards then decide (rank x ≤ rank y) else decide (rank y < rank x)

/-- All elements in the order of taking. -/
def merged (m : Merge α) (rank : α → Int) : List α :=
  m.taken.reverse ++ List.merge m.left m.right (m.takesLeft rank)

/-- Whether a rank comes no later than another in the order of taking. -/
def InOrder (m : Merge α) (rank : α → Int) (x y : α) : Prop :=
  if m.forwards then rank x ≤ rank y else rank y ≤ rank x

/-- Whether what is left of two runs can be merged: they are in order, and the last element of the
run that was the shorter one is the last of all. -/
structure Ready (rank : α → Int) (among : α → Prop) (m : Merge α) : Prop where
  left_among : ∀ x ∈ m.left, among x
  right_among : ∀ y ∈ m.right, among y
  left_order : m.left.Pairwise (m.InOrder rank)
  right_order : m.right.Pairwise (m.InOrder rank)
  closing :
    if m.forwards then
      ∀ x, m.left.getLast? = some x → ∀ y ∈ m.right, m.takesLeft rank x y = false
    else ∀ y, m.right.getLast? = some y → ∀ x ∈ m.left, m.takesLeft rank x y = true

variable {rank : α → Int} {among : α → Prop} {m : Merge α}

theorem Ready.takeLeft (h : m.Ready rank among) (n : Nat) : (m.takeLeft n).Ready rank among where
  left_among x hx := h.left_among x (List.mem_of_mem_drop hx)
  right_among := h.right_among
  left_order := h.left_order.sublist (List.drop_sublist n m.left)
  right_order := h.right_order
  closing := by
    have closing := h.closing
    show if m.forwards then _ else _
    split
    · next forwards =>
      rw [if_pos forwards] at closing
      exact fun x hx => closing x (getLast?_of_drop hx)
    · next backwards =>
      rw [if_neg backwards] at closing
      exact fun y hy x hx => closing y hy x (List.mem_of_mem_drop hx)

theorem Ready.takeRight (h : m.Ready rank among) (n : Nat) : (m.takeRight n).Ready rank among where
  left_among := h.left_among
  right_among y hy := h.right_among y (List.mem_of_mem_drop hy)
  left_order := h.left_order
  right_order := h.right_order.sublist (List.drop_sublist n m.right)
  closing := by
    have closing := h.closing
    show if m.forwards then _ else _
    split
    · next forwards =>
      rw [if_pos forwards] at closing
      exact fun x hx y hy => closing x hx y (List.mem_of_mem_drop hy)
    · next backwards =>
      rw [if_neg backwards] at closing
      exact fun y hy => closing y (getLast?_of_drop hy)

/-! ## Steps of merging -/

theorem merge_take_left {le : α → α → Bool} {xs : List α} (ys : List α) {y : α} {n : Nat}
    (h : ∀ x ∈ xs.take n, le x y = true) :
    xs.take n ++ List.merge (xs.drop n) (y :: ys) le = List.merge xs (y :: ys) le := by
  induction xs generalizing n with
  | nil => simp
  | cons x xs ih =>
    cases n with
    | zero => rfl
    | succ n =>
      rw [List.take_succ_cons, List.forall_mem_cons] at h
      rw [List.cons_merge_cons, if_pos h.1, List.take_succ_cons, List.drop_succ_cons,
        List.cons_append, ih h.2]

theorem merge_take_right {le : α → α → Bool} (xs : List α) {ys : List α} {x : α} {n : Nat}
    (h : ∀ y ∈ ys.take n, le x y = false) :
    ys.take n ++ List.merge (x :: xs) (ys.drop n) le = List.merge (x :: xs) ys le := by
  induction ys generalizing n with
  | nil => simp
  | cons y ys ih =>
    cases n with
    | zero => rfl
    | succ n =>
      rw [List.take_succ_cons, List.forall_mem_cons] at h
      rw [List.cons_merge_cons, if_neg (by simp [h.1]), List.take_succ_cons, List.drop_succ_cons,
        List.cons_append, ih h.2]

theorem takeLeft_merged {y : α} {ys : List α} {n : Nat} (right : m.right = y :: ys)
    (h : ∀ x ∈ m.left.take n, m.takesLeft rank x y = true) :
    (m.takeLeft n).merged rank = m.merged rank := by
  show ((m.left.take n).reverse ++ m.taken).reverse
    ++ List.merge (m.left.drop n) m.right (m.takesLeft rank) = _
  rw [List.reverse_append, List.reverse_reverse, List.append_assoc, right, merge_take_left _ h,
    merged, right]

theorem takeRight_merged {x : α} {xs : List α} {n : Nat} (left : m.left = x :: xs)
    (h : ∀ y ∈ m.right.take n, m.takesLeft rank x y = false) :
    (m.takeRight n).merged rank = m.merged rank := by
  show ((m.right.take n).reverse ++ m.taken).reverse
    ++ List.merge m.left (m.right.drop n) (m.takesLeft rank) = _
  rw [List.reverse_append, List.reverse_reverse, List.append_assoc, left, merge_take_right _ h,
    merged, left]

theorem nonempty_of_unfinished (h : m.finished? = none) :
    (∃ x xs, m.left = x :: xs) ∧ ∃ y ys, m.right = y :: ys := by
  obtain ⟨forwards, taken, left, right⟩ := m
  cases forwards <;> cases left <;> cases right <;> simp [finished?] at h ⊢

theorem finished?_merged (h : m.Ready rank among) {zs : List α} (done : m.finished? = some zs) :
    zs = m.merged rank := by
  obtain ⟨forwards, taken, left, right⟩ := m
  have closing := h.closing
  simp only [finished?, Option.ite_none_right_eq_some, Option.some.injEq] at done
  obtain ⟨ended, rfl⟩ := done
  cases forwards with
  | true =>
    simp only [if_true, Bool.or_eq_true, List.isEmpty_iff, decide_eq_true_iff] at ended closing ⊢
    rw [merged, List.append_assoc]
    refine congrArg _ ?_
    rcases left with _ | ⟨x, _ | ⟨x', xs⟩⟩
    · simp
    · have last := merge_take_right [] (n := right.length)
        (fun y hy => closing x rfl y (List.mem_of_mem_take hy))
      simpa using last
    · rcases ended with rfl | short
      · simp
      · simp at short
  | false =>
    simp only [Bool.false_eq_true, if_false, Bool.or_eq_true, List.isEmpty_iff,
      decide_eq_true_iff] at ended closing ⊢
    rw [merged, List.append_assoc]
    refine congrArg _ ?_
    rcases right with _ | ⟨y, _ | ⟨y', ys⟩⟩
    · simp
    · have last := merge_take_left [] (n := left.length)
        (fun x hx => closing y rfl x (List.mem_of_mem_take hx))
      simpa using last
    · rcases ended with rfl | short
      · simp
      · simp at short

/-- What merging gives if it is finished, and what else is done gives otherwise. -/
theorem orElse_merged (h : m.Ready rank among) (many : Nat)
    (go : Merge α → Outcome (List α × Nat))
    (rest : m.finished? = none → ∃ many', go m = .ok (m.merged rank, many')) :
    ∃ many', m.orElse many go = .ok (m.merged rank, many') := by
  rw [orElse]
  cases done : m.finished? with
  | none => exact rest done
  | some zs => exact ⟨many, by rw [← finished?_merged h done]; rfl⟩

/-! ## Strides -/

theorem ahead_ok {behind : α → Outcome Bool} (takes : α → Bool) {xs : List α} (nonempty : xs ≠ [])
    (told : ∀ x ∈ xs, behind x = .ok (if m.forwards then takes x else !takes x))
    (falls : xs.Pairwise fun x y => takes y = true → takes x = true) :
    ∃ n, m.ahead behind xs = .ok n ∧ (∀ x ∈ xs.take n, takes x = true)
      ∧ ∀ x ∈ xs.drop n, takes x = false := by
  have some_left := List.length_pos_iff.2 nonempty
  obtain ⟨n, most, front, back, asked⟩ := exists_place (p := takes)
    (fun x _ => (rfl : (.ok (takes x) : Outcome Bool) = .ok (takes x))) falls
  refine ⟨n, ?_, front, back⟩
  rw [ahead]
  split
  · next forwards =>
    refine placeNear_eq some_left most fun i hi => ?_
    rw [← asked i, at?, at?, List.getElem?_eq_getElem hi]
    simpa [forwards] using told _ (List.getElem_mem hi)
  · next backwards =>
    have place : placeNear (fun i => at? behind xs (xs.length - 1 - i)) xs.length (xs.length - 1)
        = .ok (xs.length - n) := by
      refine placeNear_eq (by omega) (by omega) fun i hi => ?_
      have inside : xs.length - 1 - i < xs.length := by omega
      have passed : takes xs[xs.length - 1 - i] = decide (xs.length - 1 - i < n) := by
        have answer := asked (xs.length - 1 - i)
        rw [at?, List.getElem?_eq_getElem inside] at answer
        exact Except.ok.inj answer
      rw [at?, List.getElem?_eq_getElem inside]
      refine (told _ (List.getElem_mem inside)).trans ?_
      rw [if_neg backwards, passed, ← decide_not]
      congr 2
      simp
      omega
    show (placeNear _ _ _ >>= _) = _
    rw [place]
    show Except.ok (xs.length - (xs.length - n)) = _
    congr 1
    omega

variable {less : Test α} (goes : GoesBy less rank among)

include goes

/-- A stride over the left run covers what is taken before what is next of the right one. -/
theorem strideLeft_ok (h : m.Ready rank among) {x y : α} {xs ys : List α} (left : m.left = x :: xs)
    (right : m.right = y :: ys) :
    ∃ n, m.strideLeft less = .ok (m.takeLeft n, n)
      ∧ (∀ x ∈ m.left.take n, m.takesLeft rank x y = true)
      ∧ ∀ x ∈ m.left.drop n, m.takesLeft rank x y = false := by
  have hy : among y := h.right_among y (by simp [right])
  obtain ⟨n, covered, front, back⟩ := ahead_ok (m := m) (fun x => m.takesLeft rank x y)
    (show m.left ≠ [] by simp [left])
    (fun x hx => show notAfter less y x = _ by
      rw [notAfter_eq goes hy (h.left_among x hx), takesLeft]
      cases m.forwards <;> simp [decide_lt])
    (h.left_order.imp fun {x x'} order => by
      unfold InOrder at order
      unfold takesLeft
      split at order <;> simp only [*, if_true, Bool.false_eq_true, if_false,
        decide_eq_true_iff] <;> omega)
  refine ⟨n, ?_, front, back⟩
  rw [strideLeft, right]
  show (m.ahead (notAfter less y) m.left >>= _) = _
  rw [covered]
  rfl

theorem strideRight_ok (h : m.Ready rank among) {x y : α} {xs ys : List α} (left : m.left = x :: xs)
    (right : m.right = y :: ys) :
    ∃ n, m.strideRight less = .ok (m.takeRight n, n)
      ∧ (∀ y ∈ m.right.take n, m.takesLeft rank x y = false)
      ∧ ∀ y ∈ m.right.drop n, m.takesLeft rank x y = true := by
  have hx : among x := h.left_among x (by simp [left])
  obtain ⟨n, covered, front, back⟩ := ahead_ok (m := m) (fun y => !m.takesLeft rank x y)
    (show m.right ≠ [] by simp [right])
    (fun y hy => show less y x = _ by
      rw [goes y x (h.right_among y hy) hx, takesLeft]
      cases m.forwards <;> simp [decide_lt])
    (h.right_order.imp fun {y y'} order => by
      unfold InOrder at order
      unfold takesLeft
      split at order <;> simp only [*, if_true, Bool.false_eq_true, if_false, ← decide_not,
        decide_eq_true_iff] <;> omega)
  refine ⟨n, ?_, fun y hy => by simpa using front y hy, fun y hy => by simpa using back y hy⟩
  rw [strideRight, left]
  show (m.ahead (less · x) m.right >>= _) = _
  rw [covered]
  rfl

/-- Whether merging with so much fuel gives all elements in the order of taking. -/
def MergesWithin (less : Test α) (rank : α → Int) (among : α → Prop) (fuel : Nat) : Prop :=
  ∀ (pace : Pace) (many : Nat) (m : Merge α), m.Ready rank among → m.finished? = none →
    m.left.length + m.right.length ≤ fuel →
      ∃ many', run less fuel pace many m = .ok (m.merged rank, many')

variable {fuel : Nat} {many : Nat}

/-- Comparing what is next of both runs takes one element. -/
theorem run_single (rest : MergesWithin less rank among fuel) (h : m.Ready rank among)
    (unfinished : m.finished? = none) (enough : m.left.length + m.right.length ≤ fuel + 1)
    (l r : Nat) : ∃ many', run less (fuel + 1) (.single l r) many m = .ok (m.merged rank, many') := by
  obtain ⟨⟨x, xs, left⟩, y, ys, right⟩ := nonempty_of_unfinished unfinished
  have hx : among x := h.left_among x (by simp [left])
  have hy : among y := h.right_among y (by simp [right])
  have compared : less y x = .ok (decide (rank y < rank x)) := goes y x hy hx
  have from_right : (decide (rank y < rank x) == m.forwards) = !m.takesLeft rank x y := by
    rw [takesLeft]
    cases m.forwards <;> simp [decide_lt]
  simp only [run, left, right, compared, ok_bind, from_right]
  cases first : m.takesLeft rank x y with
  | true =>
    simp only [Bool.not_true, Bool.false_eq_true, if_false]
    rw [← takeLeft_merged (n := 1) right (by simp [left, first])]
    refine orElse_merged (h.takeLeft 1) _ _ fun unfinished => ?_
    have enough : (m.takeLeft 1).left.length + (m.takeLeft 1).right.length ≤ fuel := by
      simp [takeLeft, left] at enough ⊢
      omega
    split <;> exact rest _ _ _ (h.takeLeft 1) unfinished enough
  | false =>
    simp only [Bool.not_false, if_true]
    rw [← takeRight_merged (n := 1) left (by simp [right, first])]
    refine orElse_merged (h.takeRight 1) _ _ fun unfinished => ?_
    have enough : (m.takeRight 1).left.length + (m.takeRight 1).right.length ≤ fuel := by
      simp [takeRight, right] at enough ⊢
      omega
    split <;> exact rest _ _ _ (h.takeRight 1) unfinished enough

/-- A round of strides takes a stride of the left run, one element of the right one, a stride of the
right one, and one element of the left one. -/
theorem run_striding (rest : MergesWithin less rank among fuel) (h : m.Ready rank among)
    (unfinished : m.finished? = none) (enough : m.left.length + m.right.length ≤ fuel + 1) :
    ∃ many', run less (fuel + 1) .striding many m = .ok (m.merged rank, many') := by
  obtain ⟨⟨x, xs, left⟩, y, ys, right⟩ := nonempty_of_unfinished unfinished
  obtain ⟨n, strode, front, back⟩ := strideLeft_ok goes h left right
  simp only [run, strode, ok_bind]
  rw [← takeLeft_merged right front]
  have ready₁ := h.takeLeft n
  refine orElse_merged ready₁ _ _ fun unfinished₁ => ?_
  -- What is next of the left run now does not go before what is next of the right one.
  obtain ⟨⟨x₁, xs₁, left₁⟩, -⟩ := nonempty_of_unfinished unfinished₁
  have after₁ : (m.takeLeft n).takesLeft rank x₁ y = false := by
    refine back x₁ ?_
    show x₁ ∈ (m.takeLeft n).left
    simp [left₁]
  rw [← takeRight_merged (n := 1) left₁ (by simpa [takeLeft, right] using after₁)]
  have ready₂ := ready₁.takeRight 1
  refine orElse_merged ready₂ _ _ fun unfinished₂ => ?_
  obtain ⟨⟨x₂, xs₂, left₂⟩, y₂, ys₂, right₂⟩ := nonempty_of_unfinished unfinished₂
  obtain ⟨n', strode', front', back'⟩ := strideRight_ok goes ready₂ left₂ right₂
  simp only [strode', ok_bind]
  rw [← takeRight_merged left₂ front']
  have ready₃ := ready₂.takeRight n'
  refine orElse_merged ready₃ _ _ fun unfinished₃ => ?_
  -- Now it is the other way round.
  obtain ⟨-, y₃, ys₃, right₃⟩ := nonempty_of_unfinished unfinished₃
  have after₃ : (((m.takeLeft n).takeRight 1).takeRight n').takesLeft rank x₂ y₃ = true := by
    refine back' y₃ ?_
    show y₃ ∈ (((m.takeLeft n).takeRight 1).takeRight n').right
    simp [right₃]
  have next : (((m.takeLeft n).takeRight 1).takeRight n').left = x₂ :: xs₂ := left₂
  rw [← takeLeft_merged (n := 1) right₃ (by simpa [next] using after₃)]
  have ready₄ := ready₃.takeLeft 1
  refine orElse_merged ready₄ _ _ fun unfinished₄ => ?_
  have enough₄ : ((((m.takeLeft n).takeRight 1).takeRight n').takeLeft 1).left.length
      + ((((m.takeLeft n).takeRight 1).takeRight n').takeLeft 1).right.length ≤ fuel := by
    simp [takeLeft, takeRight, right] at enough ⊢
    omega
  split <;> exact rest _ _ _ ready₄ unfinished₄ enough₄

/-- Merging gives all elements in the order of taking. -/
theorem run_merged (fuel : Nat) : MergesWithin less rank among fuel := by
  induction fuel with
  | zero =>
    intro pace many m h unfinished enough
    obtain ⟨⟨x, xs, left⟩, -⟩ := nonempty_of_unfinished unfinished
    simp [left] at enough
  | succ fuel ih =>
    intro pace many m h unfinished enough
    cases pace with
    | single l r => exact run_single goes ih h unfinished enough l r
    | striding => exact run_striding goes ih h unfinished enough

end Merge

/-! ## What merging gives -/

section

variable {rank : α → Int} {xs ys zs : List α}

theorem merge_swap (le : α → α → Bool) (xs ys : List α) :
    List.merge xs ys le = List.merge ys xs fun y x => !le x y := by
  induction xs generalizing ys with
  | nil => simp
  | cons x xs ih =>
    induction ys with
    | nil => simp
    | cons y ys ih' =>
      rw [List.cons_merge_cons, List.cons_merge_cons]
      cases le x y <;> simp [ih, ih']

/-- Merging keeps ranks in order, and elements of one rank in theirs. -/
theorem merge_ranked (hx : Ranked rank xs) (hy : Ranked rank ys) :
    Ranked rank (List.merge xs ys fun x y => decide (rank x ≤ rank y))
      ∧ Rearranges rank (xs ++ ys) (List.merge xs ys fun x y => decide (rank x ≤ rank y)) := by
  constructor
  · let le (x y : α) : Bool := decide (rank x ≤ rank y)
    have sorted : (List.merge xs ys le).Pairwise fun x y => le x y = true :=
      List.pairwise_merge
        (fun a b c hab hbc => by simp only [le, decide_eq_true_iff] at *; omega)
        (fun a b => by simp only [le, Bool.or_eq_true, decide_eq_true_iff]; omega) xs ys
        (hx.imp decide_eq_true) (hy.imp decide_eq_true)
    exact sorted.imp of_decide_eq_true
  · intro n
    induction xs generalizing ys with
    | nil => simp
    | cons x xs ih =>
      induction ys with
      | nil => simp
      | cons y ys ih' =>
        obtain ⟨least, later⟩ := List.pairwise_cons.1 hx
        rw [List.cons_merge_cons]
        split
        · rw [List.cons_append, List.filter_cons, List.filter_cons, ih later hy]
        · next behind =>
          have below : rank y < rank x := by simpa using behind
          rw [List.filter_cons, ih' (List.pairwise_cons.1 hy).2]
          split
          · next level =>
            have none : (x :: xs).filter (rank · == n) = [] := by
              refine List.filter_eq_nil_iff.2 (List.forall_mem_cons.2 ⟨?_, fun z hz => ?_⟩)
              · simp only [beq_iff_eq] at level ⊢
                omega
              · have := least z hz
                simp only [beq_iff_eq] at level ⊢
                omega
            rw [List.filter_append, List.filter_append, none]
            simp [level]
          · next other =>
            rw [List.filter_append, List.filter_append]
            simp [other]

theorem Rearranges.negate : Rearranges (fun x => -rank x) xs ys ↔ Rearranges rank xs ys := by
  have turned (n : Int) (zs : List α) :
      zs.filter (fun x => -rank x == n) = zs.filter (rank · == -n) := by
    refine List.filter_congr fun x _ => ?_
    rw [Bool.eq_iff_iff, beq_iff_eq, beq_iff_eq]
    omega
  constructor
  · intro h n
    have both := h (-n)
    rwa [turned, turned, Int.neg_neg] at both
  · intro h n
    rw [turned, turned]
    exact h (-n)

theorem Ranked.reverse (h : Ranked rank xs) : Ranked (fun x => -rank x) xs.reverse := by
  rw [Ranked, List.pairwise_reverse]
  exact h.imp fun le => Int.neg_le_neg le

theorem Ranked.le_of_take_drop {k : Nat} (h : Ranked rank xs) {x y : α} (hx : x ∈ xs.take k)
    (hy : y ∈ xs.drop k) : rank x ≤ rank y := by
  rw [Ranked, ← List.take_append_drop k xs, List.pairwise_append] at h
  exact h.2.2 x hx y hy

theorem Ranked.le_getLast? (h : Ranked rank xs) {x y : α} (last : xs.getLast? = some y)
    (hx : x ∈ xs) : rank x ≤ rank y := by
  obtain ⟨zs, rfl⟩ := List.getLast?_eq_some_iff.1 last
  rcases List.mem_append.1 hx with hx | hx
  · exact (List.pairwise_append.1 h).2.2 x hx y List.mem_cons_self
  · cases List.mem_singleton.1 hx
    exact Int.le_refl _

/-- What is merged in the middle belongs between what was in place in front of it and behind it. -/
theorem Ranked.between (hx : Ranked rank xs) (hy : Ranked rank ys) (hz : Ranked rank zs) {k j : Nat}
    (same : Rearranges rank (xs.drop k ++ ys.take j) zs)
    (low : ∀ x ∈ xs.take k, ∀ y ∈ ys, rank x ≤ rank y)
    (high : ∀ y ∈ ys.drop j, ∀ x ∈ xs, rank x ≤ rank y) :
    Ranked rank (xs.take k ++ zs ++ ys.drop j)
      ∧ Rearranges rank (xs ++ ys) (xs.take k ++ zs ++ ys.drop j) := by
  constructor
  · refine List.pairwise_append.2 ⟨List.pairwise_append.2
      ⟨hx.sublist (List.take_sublist k xs), hz, fun x hx' z hz => ?_⟩,
      hy.sublist (List.drop_sublist _ _), fun x hx' z hz => ?_⟩
    · rcases List.mem_append.1 (same.mem_iff.1 hz) with hz | hz
      · exact hx.le_of_take_drop hx' hz
      · exact low x hx' z (List.mem_of_mem_take hz)
    · rcases List.mem_append.1 hx' with hx' | hx'
      · exact high z hz x (List.mem_of_mem_take hx')
      · rcases List.mem_append.1 (same.mem_iff.1 hx') with hx' | hx'
        · exact high z hz x (List.mem_of_mem_drop hx')
        · exact hy.le_of_take_drop hx' hz
  · have whole := ((Rearranges.refl (xs.take k)).append same).append (.refl (ys.drop j))
    rwa [← List.append_assoc (xs.take k), List.take_append_drop, List.append_assoc xs,
      List.take_append_drop] at whole

end

/-! ## Merging runs -/

section

variable {less : Test α} {rank : α → Int} {among : α → Prop} {xs ys : List α}
  (goes : GoesBy less rank among) (many : Nat)

include goes

/-- Merging from the front, or from the back. -/
theorem mergeInner_ranked (hxs : ∀ x ∈ xs, among x) (hys : ∀ y ∈ ys, among y) (hx : Ranked rank xs)
    (hy : Ranked rank ys) {x₀ y₀ : α} (last : xs.getLast? = some x₀) (first : ys.head? = some y₀)
    (above : ∀ x ∈ xs, rank y₀ < rank x) (below : ∀ y ∈ ys, rank y < rank x₀) :
    ∃ zs many', mergeInner less many xs ys = .ok (zs, many')
      ∧ Ranked rank zs ∧ Rearranges rank (xs ++ ys) zs := by
  have hx₀ := List.mem_of_getLast? last
  rw [mergeInner]
  -- The shorter run decides from which end the two are merged.
  by_cases shorter : xs.length ≤ ys.length
  · simp only [if_pos shorter]
    have ready : (Merge.mk true [] xs ys).Ready rank among := by
      refine ⟨hxs, hys, hx, hy, ?_⟩
      intro x is y hy
      cases last.symm.trans is
      exact decide_eq_false (Int.not_le.2 (below y hy))
    obtain ⟨x, xs', rfl⟩ := List.exists_cons_of_ne_nil (List.ne_nil_of_mem hx₀)
    have first' : ∀ y ∈ ys.take 1, (Merge.mk true [] (x :: xs') ys).takesLeft rank x y = false := by
      intro y hy
      rw [List.take_one, first] at hy
      cases List.mem_singleton.1 hy
      exact decide_eq_false (Int.not_le.2 (above x List.mem_cons_self))
    obtain ⟨many', merging⟩ := Merge.orElse_merged (ready.takeRight 1) many
      (Merge.run less ((x :: xs').length + ys.length) (.single 0 0) many)
      fun unfinished => Merge.run_merged goes _ _ _ _ (ready.takeRight 1) unfinished (by
        simp [Merge.takeRight])
    rw [merging, Merge.takeRight_merged rfl first']
    exact ⟨_, _, rfl, merge_ranked hx hy⟩
  · simp only [if_neg shorter]
    have ready : (Merge.mk false [] xs.reverse ys.reverse).Ready rank among := by
      refine ⟨by simpa using hxs, by simpa using hys, ?_, ?_, ?_⟩
      · exact List.pairwise_reverse.2 hx
      · exact List.pairwise_reverse.2 hy
      · intro y is x hx
        rw [List.getLast?_reverse] at is
        cases first.symm.trans is
        exact decide_eq_true (above x (List.mem_reverse.1 hx))
    obtain ⟨y, ys', right⟩ := List.exists_cons_of_ne_nil (l := ys.reverse)
      (by simpa using List.ne_nil_of_mem (List.mem_of_head? first))
    have last' : ∀ x ∈ xs.reverse.take 1,
        (Merge.mk false [] xs.reverse ys.reverse).takesLeft rank x y = true := by
      intro x hx
      rw [List.take_one, List.head?_reverse, last] at hx
      cases List.mem_singleton.1 hx
      exact decide_eq_true (below y (List.mem_reverse.1 (right ▸ List.mem_cons_self)))
    obtain ⟨many', merging⟩ := Merge.orElse_merged (ready.takeLeft 1) many
      (Merge.run less (xs.length + ys.length) (.single 0 0) many)
      fun unfinished => Merge.run_merged goes _ _ _ _ (ready.takeLeft 1) unfinished (by
        simp [Merge.takeLeft])
    rw [merging, Merge.takeLeft_merged right last']
    -- From the back, the right run is the first one, and the ranks are turned around.
    have turned : (Merge.mk false [] xs.reverse ys.reverse).merged rank
        = List.merge ys.reverse xs.reverse fun y x => decide (-rank y ≤ -rank x) := by
      refine (merge_swap _ _ _).trans (congrArg _ (funext fun y => funext fun x => ?_))
      show (!decide (rank y < rank x)) = _
      rw [← decide_not]
      simp
    obtain ⟨sorted, same⟩ := merge_ranked hy.reverse hx.reverse
    rw [← List.reverse_append] at same
    refine ⟨_, _, rfl, ?_, ?_⟩
    · rw [turned]
      exact sorted.reverse.imp fun le => by simpa using le
    · rw [turned]
      have back := (Rearranges.negate.1 same).reverse
      rwa [List.reverse_reverse] at back

/-- What is in place already can stay there. -/
theorem mergeRuns_ranked (hxs : ∀ x ∈ xs, among x) (hys : ∀ y ∈ ys, among y) (hx : Ranked rank xs)
    (hy : Ranked rank ys) :
    ∃ zs many', mergeRuns less many xs ys = .ok (zs, many')
      ∧ Ranked rank zs ∧ Rearranges rank (xs ++ ys) zs := by
  cases ys with
  | nil => exact ⟨xs, many, rfl, hx, by rw [List.append_nil]; exact .refl xs⟩
  | cons y ys =>
    have first : among y := hys y List.mem_cons_self
    -- What goes before all of the right run, or along with its first element, is in place.
    obtain ⟨k, most, front, behind, asked⟩ := exists_place (p := fun x => decide (rank x ≤ rank y))
      (fun x hx => notAfter_eq goes first (hxs x hx))
      (hx.imp fun le h => decide_eq_true (Int.le_trans le (of_decide_eq_true h)))
    have place : placeNear (at? (notAfter less y) xs) xs.length 0 = .ok k := by
      cases xs with
      | nil =>
        obtain rfl : k = 0 := Nat.le_zero.1 most
        exact halve_eq (Nat.le_refl 0) (Nat.le_refl 0) nofun
      | cons x xs => exact placeNear_eq (by simp) most fun i _ => asked i
    have low : ∀ x ∈ xs.take k, ∀ z ∈ y :: ys, rank x ≤ rank z := by
      intro x hx z hz
      have le := of_decide_eq_true (front x hx)
      rcases List.mem_cons.1 hz with rfl | hz
      · exact le
      · exact Int.le_trans le ((List.pairwise_cons.1 hy).1 z hz)
    rw [mergeRuns]
    simp only [List.head?_cons, place, ok_bind, List.splitAt_eq]
    cases last : (xs.drop k).getLast? with
    | none =>
      have whole : xs.take k = xs := by
        have all := List.take_append_drop k xs
        rwa [List.getLast?_eq_none_iff.1 last, List.append_nil] at all
      refine ⟨_, _, rfl, ?_, ?_⟩
      · rw [whole] at low ⊢
        exact List.pairwise_append.2 ⟨hx, hy, low⟩
      · rw [whole]
        exact .refl _
    | some x₀ =>
      have hx₀ := List.mem_of_getLast? last
      have among₀ : among x₀ := hxs x₀ (List.mem_of_mem_drop hx₀)
      -- So is what does not go before the last element of the left run.
      obtain ⟨j, most', front', behind', asked'⟩ :=
        exists_place (p := fun z => decide (rank z < rank x₀))
        (fun z (hz : z ∈ y :: ys) => goes z x₀ (hys z hz) among₀)
        (hy.imp fun le h => decide_eq_true (Int.lt_of_le_of_lt le (of_decide_eq_true h)))
      have place' : placeNear (at? (less · x₀) (y :: ys)) (y :: ys).length ((y :: ys).length - 1)
          = .ok j :=
        placeNear_eq (by simp) most' fun i _ => asked' i
      have above : rank y < rank x₀ := Int.not_le.1 (of_decide_eq_false (behind x₀ hx₀))
      obtain ⟨j, rfl⟩ : ∃ j', j = j' + 1 := by
        refine Nat.exists_eq_succ_of_ne_zero fun none => ?_
        exact of_decide_eq_false (behind' y (by simp [none])) above
      have inner := mergeInner_ranked goes many
        (fun x (hx : x ∈ xs.drop k) => hxs x (List.mem_of_mem_drop hx))
        (fun z (hz : z ∈ (y :: ys).take (j + 1)) => hys z (List.mem_of_mem_take hz))
        (hx.sublist (List.drop_sublist k xs))
        (hy.sublist (List.take_sublist _ _)) last rfl
        (fun x hx => Int.not_le.1 (of_decide_eq_false (behind x hx)))
        (fun z hz => of_decide_eq_true (front' z hz))
      obtain ⟨zs, many', merged, sorted, same⟩ := inner
      have nonempty : ((y :: ys).take (j + 1)).isEmpty = false := rfl
      simp only [place', ok_bind, nonempty, Bool.false_eq_true, if_false, merged]
      have high : ∀ z ∈ (y :: ys).drop (j + 1), ∀ x ∈ xs, rank x ≤ rank z := by
        intro z hz x hx'
        have le := Int.not_lt.1 (of_decide_eq_false (behind' z hz))
        exact Int.le_trans (hx.le_getLast? (getLast?_of_drop last) hx') le
      exact ⟨_, _, rfl, hx.between hy sorted same low high⟩

end

end EntityGraph.Sorting
