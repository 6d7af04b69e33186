import EntityGraph.Proofs.Eval.Merged
import EntityGraph.Proofs.Eval.Permuted

/-!
# Sorting ranked elements

Sorting takes runs off the elements, lets them wait and merges neighbours. At every moment the runs
that wait are in order each, and their elements together with those that are not in a run yet are
the original ones, those of one rank in the original order. When one run is left, it is sorted.

A run that goes down is turned around. It goes down strictly, so no two of its elements are of one
rank.
-/

namespace EntityGraph.Sorting

variable {α : Type} {less : Test α} {rank : α → Int} {among : α → Prop}
  {xs ys : List α}

/-! ## Runs of elements -/

/-- Whether one element may follow another in a run that goes down, or in one that does not. -/
def Follows (rank : α → Int) (down : Bool) (x y : α) : Prop :=
  if down then rank y < rank x else rank x ≤ rank y

theorem Follows.trans {down : Bool} {x y z : α} (h : Follows rank down x y)
    (h' : Follows rank down y z) : Follows rank down x z := by
  unfold Follows at *
  split at h <;> simp_all <;> omega

theorem splitRun_ok (goes : GoesBy less rank among) (down : Bool) {x : α} (hx : among x)
    (hxs : ∀ y ∈ xs, among y) :
    ∃ run rest, splitRun less down x xs = .ok (run, rest) ∧ run ++ rest = xs
      ∧ (x :: run).Pairwise (Follows rank down) := by
  induction xs generalizing x with
  | nil => exact ⟨[], [], rfl, rfl, List.pairwise_singleton _ x⟩
  | cons y ys ih =>
    rw [List.forall_mem_cons] at hxs
    rw [splitRun, goes y x hxs.1 hx, ok_bind]
    split
    · next more =>
      obtain ⟨run, rest, split, whole, follow⟩ := ih hxs.1 hxs.2
      have next : Follows rank down x y := by
        rw [beq_iff_eq] at more
        rw [Follows, ← more]
        split <;> simp_all
      refine ⟨y :: run, rest, by rw [split]; rfl, congrArg _ whole, ?_⟩
      refine List.pairwise_cons.2 ⟨List.forall_mem_cons.2 ⟨next, fun z hz => ?_⟩, follow⟩
      exact next.trans ((List.pairwise_cons.1 follow).1 z hz)
    · exact ⟨[], y :: ys, rfl, rfl, List.pairwise_singleton _ x⟩

/-- Of elements that go down no two have one rank, so they can be turned around. -/
theorem rearranges_reverse (h : xs.Pairwise (Follows rank true)) :
    Rearranges rank xs xs.reverse := by
  intro n
  rw [List.filter_reverse]
  induction xs with
  | nil => rfl
  | cons x xs ih =>
    obtain ⟨below, later⟩ := List.pairwise_cons.1 h
    rw [List.filter_cons]
    split
    · next level =>
      have none : xs.filter (rank · == n) = [] := by
        refine List.filter_eq_nil_iff.2 fun y hy => ?_
        have : rank y < rank x := below y hy
        rw [beq_iff_eq] at level ⊢
        omega
      rw [none]
      rfl
    · exact ih later

section

variable (goes : GoesBy less rank among)

include goes

theorem firstRun_ranked (hxs : ∀ x ∈ xs, among x) :
    ∃ run rest, firstRun less xs = .ok (run, rest) ∧ Ranked rank run
      ∧ Rearranges rank xs (run ++ rest) := by
  rcases xs with _ | ⟨x, _ | ⟨y, ys⟩⟩
  · exact ⟨[], [], rfl, .nil, .refl _⟩
  · exact ⟨[x], [], rfl, List.pairwise_singleton _ x, .refl _⟩
  · simp only [List.forall_mem_cons] at hxs
    obtain ⟨run, rest, split, whole, follow⟩ :=
      splitRun_ok goes (decide (rank y < rank x)) hxs.2.1 hxs.2.2
    have all : (x :: y :: run).Pairwise (Follows rank (decide (rank y < rank x))) := by
      have next : Follows rank (decide (rank y < rank x)) x y := by
        rw [Follows]
        split <;> simp_all
      refine List.pairwise_cons.2 ⟨List.forall_mem_cons.2 ⟨next, fun z hz => ?_⟩, follow⟩
      exact next.trans ((List.pairwise_cons.1 follow).1 z hz)
    rw [firstRun, goes y x hxs.2.1 hxs.1, ok_bind, split, ok_bind, ← whole]
    cases down : decide (rank y < rank x) with
    | false =>
      rw [down] at all
      exact ⟨_, _, rfl, all, .refl _⟩
    | true =>
      rw [down] at all
      refine ⟨_, _, rfl, List.pairwise_reverse.2 (all.imp Int.le_of_lt), ?_⟩
      exact (rearranges_reverse all).append (.refl rest)

theorem foldlM_insert_ranked (hys : ∀ y ∈ ys, among y) (sorted : Ranked rank xs)
    (hxs : ∀ x ∈ xs, among x) :
    ∃ zs, ys.foldlM (insert less) xs = .ok zs ∧ Ranked rank zs ∧ Rearranges rank (xs ++ ys) zs := by
  induction ys generalizing xs with
  | nil => exact ⟨xs, rfl, sorted, by rw [List.append_nil]; exact .refl xs⟩
  | cons y ys ih =>
    rw [List.forall_mem_cons] at hys
    obtain ⟨more, inserted, sorted', same⟩ := insert_ranked goes sorted hxs hys.1
    have among' : ∀ x ∈ more, among x := by
      intro x hx
      rcases List.mem_append.1 (same.mem_iff.1 hx) with hx | hx
      · exact hxs x hx
      · exact List.mem_singleton.1 hx ▸ hys.1
    obtain ⟨zs, rest, sorted'', same'⟩ := ih hys.2 sorted' among'
    refine ⟨zs, by rw [List.foldlM_cons, inserted, ok_bind, rest], sorted'', ?_⟩
    have whole := (same.append (.refl ys)).trans same'
    rwa [List.append_assoc] at whole

theorem nextRun_ranked (least : Nat) (hxs : ∀ x ∈ xs, among x) :
    ∃ run rest, nextRun less least xs = .ok (run, rest) ∧ Ranked rank run
      ∧ Rearranges rank xs (run ++ rest) := by
  obtain ⟨run, rest, first, sorted, same⟩ := firstRun_ranked goes hxs
  have among' : ∀ x ∈ run ++ rest, among x := fun x hx => hxs x (same.mem_iff.1 hx)
  obtain ⟨longer, inserted, sorted', same'⟩ := foldlM_insert_ranked goes
    (fun y (hy : y ∈ rest.take (least - run.length)) =>
      among' y (List.mem_append_right _ (List.mem_of_mem_take hy)))
    sorted fun x hx => among' x (List.mem_append_left _ hx)
  refine ⟨longer, rest.drop (least - run.length), ?_, sorted', same.trans ?_⟩
  · rw [nextRun, first]
    show ((rest.take (least - run.length)).foldlM (insert less) run >>= fun longer =>
      Except.ok (longer, rest.drop (least - run.length))) = _
    rw [inserted, ok_bind]
  have whole := same'.append (.refl (rest.drop (least - run.length)))
  rwa [List.append_assoc, List.take_append_drop] at whole

/-! ## Runs that wait -/

/-- Whether the elements of a run are in order. -/
def Run.IsRanked (rank : α → Int) (among : α → Prop) (r : Run α) : Prop :=
  (∀ x ∈ r.elements, among x) ∧ Ranked rank r.elements

theorem Run.merge_ranked (many : Nat) {front back : Run α} (hf : front.IsRanked rank among)
    (hb : back.IsRanked rank among) :
    ∃ r many', front.merge less many back = .ok (r, many') ∧ r.IsRanked rank among
      ∧ Rearranges rank (front.elements ++ back.elements) r.elements := by
  obtain ⟨zs, many', merged, ranked, same⟩ :=
    mergeRuns_ranked goes many hf.1 hb.1 hf.2 hb.2
  refine ⟨{ front with elements := zs }, many', by rw [Run.merge, merged]; rfl,
    ⟨fun x hx => ?_, ranked⟩, same⟩
  exact (List.mem_append.1 (same.mem_iff.1 hx)).elim (hf.1 x) (hb.1 x)

theorem collapse_ranked (power many : Nat) {last : Run α} {waiting : List (Run α)}
    (hlast : last.IsRanked rank among) (hr : ∀ r ∈ waiting, r.IsRanked rank among) :
    ∃ waiting' many', collapse less power many last waiting = .ok (waiting', many')
      ∧ (∀ r ∈ waiting', r.IsRanked rank among)
      ∧ Rearranges rank (Run.contents (last :: waiting)) (Run.contents waiting') := by
  induction waiting generalizing many last with
  | nil => exact ⟨_, _, rfl, List.forall_mem_singleton.2 hlast, by simpa using .refl _⟩
  | cons front waiting ih =>
    rw [List.forall_mem_cons] at hr
    rw [collapse]
    split
    · obtain ⟨r, many', merged, ranked, same⟩ := Run.merge_ranked goes many hr.1 hlast
      obtain ⟨waiting', many'', collapsed, ranked', same'⟩ := ih many' ranked hr.2
      refine ⟨waiting', many'', by rw [merged]; exact collapsed, ranked', .trans ?_ same'⟩
      simpa using (Rearranges.refl (Run.contents waiting)).append same
    · refine ⟨_, _, rfl, ?_, by simpa using .refl _⟩
      exact List.forall_mem_cons.2 ⟨hlast, List.forall_mem_cons.2 hr⟩

theorem mergeAll_ranked (many : Nat) {last : Run α} {waiting : List (Run α)}
    (hlast : last.IsRanked rank among) (hr : ∀ r ∈ waiting, r.IsRanked rank among) :
    ∃ ys, mergeAll less many last waiting = .ok ys ∧ Ranked rank ys
      ∧ Rearranges rank (Run.contents (last :: waiting)) ys := by
  fun_induction mergeAll less many last waiting with
  | case1 many last => exact ⟨_, rfl, hlast.2, by simpa [Run.contents] using .refl _⟩
  | case2 many last r =>
    obtain ⟨r', many', merged, ranked, same⟩ :=
      Run.merge_ranked goes many (hr r List.mem_cons_self) hlast
    exact ⟨r'.elements, by rw [merged]; rfl, ranked.2, by simpa [Run.contents] using same⟩
  | case3 many last r s waiting shorter ih =>
    simp only [List.forall_mem_cons] at hr
    obtain ⟨r', many', merged, ranked, same⟩ := Run.merge_ranked goes many hr.2.1 hr.1
    obtain ⟨ys, rest, ranked', same'⟩ := ih r' many' hlast (List.forall_mem_cons.2 ⟨ranked, hr.2.2⟩)
    refine ⟨ys, by rw [merged]; exact rest, ranked', .trans ?_ same'⟩
    simpa using ((Rearranges.refl (Run.contents waiting)).append same).append (.refl last.elements)
  | case4 many last r s waiting longer ih =>
    simp only [List.forall_mem_cons] at hr
    obtain ⟨r', many', merged, ranked, same⟩ := Run.merge_ranked goes many hr.1 hlast
    obtain ⟨ys, rest, ranked', same'⟩ := ih r' many' ranked (List.forall_mem_cons.2 hr.2)
    refine ⟨ys, by rw [merged]; exact rest, ranked', .trans ?_ same'⟩
    simpa using (Rearranges.refl (Run.contents waiting ++ s.elements)).append same

theorem sortBehind_ranked (total least fuel many : Nat) {waiting : List (Run α)}
    (bound : xs.length < fuel) (hr : ∀ r ∈ waiting, r.IsRanked rank among)
    (hxs : ∀ x ∈ xs, among x) :
    ∃ ys, sortBehind less total least fuel many waiting xs = .ok ys ∧ Ranked rank ys
      ∧ Rearranges rank (Run.contents waiting ++ xs) ys := by
  induction fuel generalizing many waiting xs with
  | zero => omega
  | succ fuel ih =>
    cases xs with
    | nil =>
      rw [List.append_nil]
      cases waiting with
      | nil => exact ⟨[], rfl, .nil, .refl _⟩
      | cons last waiting =>
        rw [List.forall_mem_cons] at hr
        exact mergeAll_ranked goes many hr.1 hr.2
    | cons x xs =>
      obtain ⟨run, rest, next, ranked, same⟩ := nextRun_ranked goes least hxs
      have shorter : rest.length < fuel :=
        Nat.lt_of_le_of_lt (nextRun_perm next).2 (Nat.lt_of_succ_lt_succ bound)
      have among' : ∀ y ∈ run ++ rest, among y := fun y hy => hxs y (same.mem_iff.1 hy)
      have first : ∀ start, (Run.mk start run 0).IsRanked rank among := fun _ =>
        ⟨fun y hy => among' y (List.mem_append_left _ hy), ranked⟩
      have later : ∀ y ∈ rest, among y := fun y hy => among' y (List.mem_append_right _ hy)
      simp only [sortBehind, next, ok_bind]
      cases waiting with
      | nil =>
        obtain ⟨ys, sorted, ranked', same'⟩ := ih many shorter
          (List.forall_mem_singleton.2 (first (total - (x :: xs).length))) later
        exact ⟨ys, sorted, ranked', same.trans (by simpa [Run.contents] using same')⟩
      | cons last waiting =>
        rw [List.forall_mem_cons] at hr
        obtain ⟨waiting', many', collapsed, ready, same₁⟩ := collapse_ranked goes
          (last.powerBefore run.length total) many hr.1 hr.2
        obtain ⟨ys, sorted, ranked', same₂⟩ := ih many' shorter
          (List.forall_mem_cons.2 ⟨first (total - (x :: xs).length), ready⟩) later
        simp only [collapsed, ok_bind]
        refine ⟨ys, sorted, ranked', (same₁.append same).trans ?_⟩
        simpa using same₂

/-- Elements are sorted by their ranks, and those of one rank keep their order. -/
theorem sort_ranked (hxs : ∀ x ∈ xs, among x) :
    ∃ ys, sort less xs = .ok ys ∧ Ranked rank ys ∧ Rearranges rank xs ys := by
  have none : ∀ r ∈ ([] : List (Run α)), r.IsRanked rank among := nofun
  have whole := sortBehind_ranked goes xs.length (leastRun xs.length 0) (xs.length + 1)
    Merge.strideLimit (Nat.lt_succ_self _) none hxs
  simpa [Run.contents, sort] using whole

end

/-- Elements that are one run are sorted by finding that. -/
theorem sort_of_run {run : List α} (found : firstRun less xs = .ok (run, [])) :
    sort less xs = .ok run := by
  cases xs with
  | nil =>
    cases found
    rfl
  | cons x xs =>
    have next (least : Nat) : nextRun less least (x :: xs) = .ok (run, []) := by
      rw [nextRun, found, ok_bind]
      simp
    show sortBehind less _ _ _ _ _ _ = _
    simp only [sortBehind, next, ok_bind, List.length_cons, mergeAll]

end EntityGraph.Sorting

/-!
## Keys that can be compared

A test that can compare elements with each other need not put them in a total order. It is enough
that being before is transitive, and so is not being before: elements neither of which is before the
other one are tied. The number of elements that are before an element is then a rank by which the
test goes, and what holds of sorting by ranks holds of sorting by the test.

Nothing is asked of missing keys. They come before all others whatever these are, so they can be
compared with everything as soon as the other keys can be compared with each other.
-/

namespace EntityGraph.Sorting

variable {α : Type} {less : Test α} {among : α → Prop} {xs ys : List α}

/-- Whether a test can compare elements with each other: it fails for no two of them, and those that
are not before each other are tied. -/
structure Comparable (less : Test α) (among : α → Prop) : Prop where
  told : ∀ x y, among x → among y → ∃ b, less x y = .ok b
  irrefl : ∀ x, among x → less x x = .ok false
  trans : ∀ x y z, among x → among y → among z →
    less x y = .ok true → less y z = .ok true → less x z = .ok true
  ties : ∀ x y z, among x → among y → among z →
    less x y = .ok false → less y z = .ok false → less x z = .ok false

/-- Elements can be compared by what belongs to them if that can be compared. -/
theorem Comparable.on {β : Type} (h : Comparable less among) {f : β → α} {among' : β → Prop}
    (sub : ∀ x, among' x → among (f x)) : Comparable (fun x y => less (f x) (f y)) among' where
  told x y hx hy := h.told _ _ (sub x hx) (sub y hy)
  irrefl x hx := h.irrefl _ (sub x hx)
  trans x y z hx hy hz := h.trans _ _ _ (sub x hx) (sub y hy) (sub z hz)
  ties x y z hx hy hz := h.ties _ _ _ (sub x hx) (sub y hy) (sub z hz)

/-- Whether a test says that one element comes before another one. -/
def comesBefore (less : Test α) (x y : α) : Bool := (less x y).toOption == some true

theorem comesBefore_iff {x y : α} : comesBefore less x y = true ↔ less x y = .ok true := by
  rw [comesBefore, beq_iff_eq, outcome_toOption]

/-- The number of elements that come before one. -/
def rankIn (less : Test α) (xs : List α) (x : α) : Int := xs.countP (comesBefore less · x)

theorem countP_lt {p q : α → Bool} (sub : ∀ x ∈ xs, p x = true → q x = true) {x : α} (hx : x ∈ xs)
    (hp : p x = false) (hq : q x = true) : xs.countP p < xs.countP q := by
  induction xs with
  | nil => cases hx
  | cons y xs ih =>
    rw [List.forall_mem_cons] at sub
    have rest : xs.countP p ≤ xs.countP q := List.countP_mono_left sub.2
    rw [List.countP_cons, List.countP_cons]
    rcases List.mem_cons.1 hx with rfl | hx
    · simp only [hp, hq, Bool.false_eq_true, if_false, if_true]
      omega
    · have first : (if p y = true then 1 else 0) ≤ if q y = true then 1 else 0 := by
        split
        · next passes => rw [if_pos (sub.1 passes)]
        · exact Nat.zero_le _
      exact Nat.add_lt_add_of_lt_of_le (ih sub.2 hx) first

/-- A test that can compare elements goes by the number of those that come before. -/
theorem Comparable.goesBy (h : Comparable less (· ∈ xs)) :
    GoesBy less (rankIn less xs) (· ∈ xs) := by
  intro x y hx hy
  obtain ⟨b, told⟩ := h.told x y hx hy
  rw [told]
  cases b with
  | true =>
    have fewer : xs.countP (comesBefore less · x) < xs.countP (comesBefore less · y) := by
      refine countP_lt (fun z hz before => ?_) hx ?_ (comesBefore_iff.2 told)
      · exact comesBefore_iff.2 (h.trans z x y hz hx hy (comesBefore_iff.1 before) told)
      · simp [comesBefore, h.irrefl x hx, Except.toOption]
    exact congrArg _ (decide_eq_true (Int.ofNat_lt.2 fewer)).symm
  | false =>
    have more : xs.countP (comesBefore less · y) ≤ xs.countP (comesBefore less · x) := by
      refine List.countP_mono_left fun z hz before => ?_
      obtain ⟨b, told'⟩ := h.told z x hz hx
      cases b with
      | true => exact comesBefore_iff.2 told'
      | false =>
        have after := h.ties z x y hz hx hy told' told
        rw [comesBefore_iff.1 before] at after
        cases after
    exact congrArg _ (decide_eq_false (Int.not_lt.2 (Int.ofNat_le.2 more))).symm

/-! ## Missing keys -/

/-- A key is compared with a missing one without looking at it. -/
theorem before_missing (w : World) {a b : Value} (missing : a.isNone = true ∨ b.isNone = true) :
    before w a b = .ok (a.isNone && !b.isNone) := by
  rw [before]
  cases ha : a.isNone with
  | true => rfl
  | false =>
    have hb : b.isNone = true := by simpa [ha] using missing
    simp [hb]

/-- Keys can be compared if those can that are not missing. -/
theorem Comparable.withMissing {w : World} {among : Value → Prop}
    (h : Comparable (before w) fun k => among k ∧ k.isNone = false) :
    Comparable (before w) among where
  told a b ha hb := by
    by_cases missing : a.isNone = true ∨ b.isNone = true
    · exact ⟨_, before_missing w missing⟩
    · simp only [not_or, Bool.not_eq_true] at missing
      exact h.told a b ⟨ha, missing.1⟩ ⟨hb, missing.2⟩
  irrefl a ha := by
    cases missing : a.isNone with
    | true => simp [before_missing w (.inl missing), missing]
    | false => exact h.irrefl a ⟨ha, missing⟩
  trans a b c ha hb hc first second := by
    have hb' : b.isNone = false := by
      by_contra missing
      rw [Bool.not_eq_false] at missing
      simp [before_missing w (.inr missing), missing] at first
    have hc' : c.isNone = false := by
      by_contra missing
      rw [Bool.not_eq_false] at missing
      simp [before_missing w (.inr missing), missing] at second
    cases ha' : a.isNone with
    | true => simp [before_missing w (.inl ha'), ha', hc']
    | false => exact h.trans a b c ⟨ha, ha'⟩ ⟨hb, hb'⟩ ⟨hc, hc'⟩ first second
  ties a b c ha hb hc first second := by
    cases hc' : c.isNone with
    | true => simp [before_missing w (.inr hc'), hc']
    | false =>
      have hb' : b.isNone = false := by
        by_contra missing
        rw [Bool.not_eq_false] at missing
        simp [before_missing w (.inl missing), missing, hc'] at second
      have ha' : a.isNone = false := by
        by_contra missing
        rw [Bool.not_eq_false] at missing
        simp [before_missing w (.inl missing), missing, hb'] at first
      exact h.ties a b c ⟨ha, ha'⟩ ⟨hb, hb'⟩ ⟨hc, hc'⟩ first second

/-- Keys that are in a strict total order, up to being the same, can be compared. -/
theorem comparable_of_total {w : World} {among : Value → Prop} (same below : Value → Value → Bool)
    (present : ∀ a, among a → a.isNone = false)
    (told : ∀ a b, among a → among b → Value.same w a b = .ok (same a b)
      ∧ (Value.operate w .lt a b >>= Value.truth w) = .ok (below a b))
    (same_trans : ∀ a b c, among a → among b → among c →
      same a b = true → same b c = true → same a c = true)
    (trans : ∀ a b c, among a → among b → among c →
      below a b = true → below b c = true → below a c = true)
    (strict : ∀ a b, among a → among b → below a b = true → same a b = false ∧ below b a = false)
    (total : ∀ a b, among a → among b → same a b = true ∨ below a b = true ∨ below b a = true) :
    Comparable (before w) among := by
  have is : ∀ a b, among a → among b → before w a b = .ok (below a b) := by
    intro a b ha hb
    rw [before, present a ha, present b hb, (told a b ha hb).1]
    cases alike : same a b with
    | false => exact (told a b ha hb).2
    | true =>
      cases less : below a b with
      | false => rfl
      | true => simp [(strict a b ha hb less).1] at alike
  have irrefl : ∀ a, among a → below a a = false := fun a ha =>
    Bool.eq_false_iff.2 fun less => by simp [(strict a a ha ha less).2] at less
  refine ⟨fun a b ha hb => ⟨_, is a b ha hb⟩, fun a ha => by rw [is a a ha ha, irrefl a ha], ?_, ?_⟩
  · intro a b c ha hb hc first second
    rw [is _ _ ‹_› ‹_›, Except.ok.injEq] at first second ⊢
    exact trans a b c ha hb hc first second
  · intro a b c ha hb hc first second
    rw [is _ _ ‹_› ‹_›, Except.ok.injEq] at first second ⊢
    refine Bool.eq_false_iff.2 fun less => ?_
    rcases total a b ha hb with alike | less' | less'
    · rcases total b c hb hc with alike' | less' | less'
      · have alike'' := same_trans a b c ha hb hc alike alike'
        simp [(strict a c ha hc less).1] at alike''
      · simp [second] at less'
      · have before := trans a c b ha hc hb less less'
        simp [first] at before
    · simp [first] at less'
    · have before := trans b a c hb ha hc less' less
      simp [second] at before

/-- Integers can be compared. -/
theorem comparable_int {w : World} {among : Value → Prop}
    (int : ∀ a, among a → ∃ n, a = .int n) : Comparable (before w) among := by
  let number (a : Value) : Int := a.asInt?.getD 0
  refine comparable_of_total (fun a b => number a == number b)
    (fun a b => compare (number a) (number b) == .lt) (fun a ha => ?_)
    (fun a b ha hb => ?_) ?_ ?_ ?_ ?_
  · obtain ⟨n, rfl⟩ := int a ha
    rfl
  · obtain ⟨m, rfl⟩ := int a ha
    obtain ⟨n, rfl⟩ := int b hb
    exact ⟨rfl, rfl⟩
  all_goals
    intros
    simp only [beq_iff_eq, beq_eq_false_iff_ne, ne_eq, Int.compare_eq_lt] at *
    omega

/-! ## Sorting by keys -/

/-- Whether neither the key of an element nor another key comes before the other. -/
def tied (w : World) (k : Value) (x : Keyed) : Bool :=
  !comesBefore (before w) x.1 k && !comesBefore (before w) k x.1

/-- Whether elements are others in the order of their keys: no key that comes later is out of
order, and the elements of tied keys are in the order they had. -/
structure SortsInto (w : World) (down : Bool) (xs ys : List Keyed) : Prop where
  perm : ys.Perm xs
  sorted : ys.Pairwise fun x y => (if down then keyBefore w x y else keyBefore w y x) = .ok false
  stable : ∀ k ∈ xs.map (·.1), ys.filter (tied w k) = xs.filter (tied w k)

/-- The rank in one direction or in the other. -/
def toward (down : Bool) (rank : α → Int) (x : α) : Int := if down then -rank x else rank x

theorem rearranges_toward {rank : α → Int} {down : Bool} :
    Rearranges (toward down rank) xs ys ↔ Rearranges rank xs ys := by
  cases down with
  | false => exact Iff.rfl
  | true => exact Rearranges.negate

section

variable {w : World} {rank : Keyed → Int} {among : Keyed → Prop} {xs ys : List Keyed} {down : Bool}

/-- Sorting by keys sorts by their ranks. In descending order the elements are turned around before
and afterwards, so that those of one rank keep their order. -/
theorem order_ranked (goes : GoesBy (keyBefore w) rank among) (hxs : ∀ x ∈ xs, among x)
    (down : Bool) :
    ∃ ys, (if down then descending w xs else ascending w xs) = .ok ys
      ∧ Ranked (toward down rank) ys ∧ Rearranges (toward down rank) xs ys := by
  cases down with
  | false => exact sort_ranked goes hxs
  | true =>
    obtain ⟨ys, sorted, ranked, same⟩ :=
      sort_ranked goes fun x (hx : x ∈ xs.reverse) => hxs x (List.mem_reverse.1 hx)
    refine ⟨ys.reverse, ?_, ranked.reverse, rearranges_toward.2 ?_⟩
    · rw [if_pos rfl, descending, sorted]
      rfl
    · have back := same.reverse
      rwa [List.reverse_reverse] at back

theorem append_of_pairwise {p : α → Bool} {xs : List α}
    (h : xs.Pairwise fun x y => p y = true → p x = true) :
    xs = xs.filter p ++ xs.filter (!p ·) := by
  induction xs with
  | nil => rfl
  | cons x xs ih =>
    obtain ⟨first, later⟩ := List.pairwise_cons.1 h
    cases passes : p x with
    | true =>
      rw [List.filter_cons_of_pos passes, List.filter_cons_of_neg (by simp [passes]),
        List.cons_append, ← ih later]
    | false =>
      have none : ∀ y ∈ xs, p y = false := fun y hy =>
        Bool.eq_false_iff.2 fun h => by simp [first y hy h] at passes
      rw [List.filter_cons_of_neg (by simp [passes]), List.filter_cons_of_pos (by simp [passes]),
        List.filter_eq_nil_iff.2 fun y hy => by simp [none y hy], List.nil_append,
        List.filter_eq_self.2 fun y hy => by simp [none y hy]]

/-- What has one rank keeps its order. -/
theorem Rearranges.filter_eq {rank : α → Int} {xs ys : List α} {p : α → Bool} {n : Int}
    (h : Rearranges rank xs ys) (level : ∀ x ∈ xs, p x = true → rank x = n) :
    ys.filter p = xs.filter p := by
  have narrow (zs : List α) (sub : zs ⊆ xs) :
      zs.filter p = (zs.filter (rank · == n)).filter p := by
    rw [List.filter_filter]
    refine List.filter_congr fun x hx => ?_
    cases passes : p x with
    | false => rfl
    | true => simp [level x (sub hx) passes]
  rw [narrow ys fun _ hx => h.mem_iff.1 hx, narrow xs (List.Subset.refl xs), h n]

theorem comesBefore_goes (goes : GoesBy (keyBefore w) rank among) {x y : Keyed} (hx : among x)
    (hy : among y) : comesBefore (before w) x.1 y.1 = decide (rank x < rank y) := by
  rw [Bool.eq_iff_iff, comesBefore_iff]
  show keyBefore w x y = _ ↔ _
  rw [goes x y hx hy, Except.ok.injEq]

/-- What is in the order of the ranks of its elements is sorted by their keys. -/
theorem sortsInto_of_ranked (goes : GoesBy (keyBefore w) rank (· ∈ xs)) (perm : ys.Perm xs)
    (ranked : Ranked (toward down rank) ys) (same : Rearranges rank xs ys) :
    SortsInto w down xs ys where
  perm := perm
  sorted := by
    refine List.Pairwise.imp_of_mem (fun {x y} hx hy le => ?_) ranked
    have hx := perm.subset hx
    have hy := perm.subset hy
    cases down with
    | false =>
      refine (goes y x hy hx).trans (congrArg _ (decide_eq_false (Int.not_lt.2 le)))
    | true =>
      refine (goes x y hx hy).trans (congrArg _ (decide_eq_false (Int.not_lt.2 ?_)))
      exact Int.neg_le_neg_iff.1 le
  stable k hk := by
    obtain ⟨z, hz, rfl⟩ := List.mem_map.1 hk
    refine same.filter_eq (n := rank z) fun x hx level => ?_
    rw [tied, comesBefore_goes goes hx hz, comesBefore_goes goes hz hx, Bool.and_eq_true,
      Bool.not_eq_true', Bool.not_eq_true', decide_eq_false_iff_not, decide_eq_false_iff_not]
      at level
    omega

/-- Sorting by keys of which those can be compared that are not missing: the elements without a key
are first, or last in descending order, as they were, and the others are sorted. -/
theorem order_keyed
    (comparable : Comparable (before w) fun k => k ∈ xs.map (·.1) ∧ k.isNone = false)
    (down : Bool) :
    ∃ ys, (if down then descending w xs else ascending w xs)
        = .ok (if down then ys ++ xs.filter (·.1.isNone) else xs.filter (·.1.isNone) ++ ys)
      ∧ SortsInto w down (xs.filter (!·.1.isNone)) ys := by
  have goes : GoesBy (keyBefore w) (rankIn (keyBefore w) xs) (· ∈ xs) :=
    Comparable.goesBy (comparable.withMissing.on fun x hx => List.mem_map_of_mem hx)
  obtain ⟨ys, sorted, ranked, same⟩ := order_ranked goes (fun _ hx => hx) down
  have perm : ys.Perm xs := by
    cases down with
    | false => exact ascending_perm sorted
    | true => exact descending_perm sorted
  -- A missing key comes before every other one, so the elements without a key stand together.
  have first : ∀ x ∈ xs, ∀ y ∈ xs, x.1.isNone = true → y.1.isNone = false →
      rankIn (keyBefore w) xs x < rankIn (keyBefore w) xs y := by
    intro x hx y hy missing present
    have told := goes x y hx hy
    rw [keyBefore, before_missing w (.inl missing), missing, present] at told
    exact of_decide_eq_true (Except.ok.inj told).symm
  have missing : ys.filter (·.1.isNone) = xs.filter (·.1.isNone) := by
    refine (rearranges_toward.1 same).filter_eq (n := 0) fun x _ missing => ?_
    refine Int.ofNat_eq_zero.2 (List.countP_eq_zero.2 fun y _ before => ?_)
    have none := comesBefore_iff.1 before
    rw [keyBefore, before_missing w (.inr missing), missing] at none
    simp at none
  refine ⟨ys.filter (!·.1.isNone), sorted.trans (congrArg _ ?_), ?_⟩
  · rw [← missing]
    cases down with
    | false =>
      refine append_of_pairwise (List.Pairwise.imp_of_mem (fun {x y} hx hy le missing => ?_) ranked)
      by_contra present
      rw [Bool.not_eq_true] at present
      exact Int.not_le.2 (first y (perm.subset hy) x (perm.subset hx) missing present) le
    | true =>
      have split := append_of_pairwise (p := fun x : Keyed => !x.1.isNone)
        (List.Pairwise.imp_of_mem (fun {x y} hx hy le present => ?_) ranked)
      · simpa using split
      · by_contra missing
        rw [Bool.not_eq_true', Bool.not_eq_false] at missing
        rw [Bool.not_eq_true'] at present
        have less := first x (perm.subset hx) y (perm.subset hy) missing present
        exact Int.not_le.2 less (Int.neg_le_neg_iff.1 le)
  · have among {x : Keyed} (hx : x ∈ xs.filter (!·.1.isNone)) : x ∈ xs := List.mem_of_mem_filter hx
    exact sortsInto_of_ranked (fun x y hx hy => goes x y (among hx) (among hy))
      (perm.filter _) (ranked.filter _) ((rearranges_toward.1 same).filter _)

end

end EntityGraph.Sorting
