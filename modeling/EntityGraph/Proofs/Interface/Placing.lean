import EntityGraph.Interface.OfSchema
import EntityGraph.Proofs.Run

/-!
# How types are placed

The type system of a schema is written out in an order that its types find while they are placed: a
given type waits for its turn, and a type that is reached by one already placed comes right behind
it, up to a bound. This module shows that nothing is lost on the way. Once all objects are given,
whatever a placed object reaches is a scalar or an object that is placed already or still waits, so a
reached type never leads further than one step and the bound is never felt.
-/

namespace EntityGraph.Interface

namespace Reached

theorem same_refl (r : Reached) : r.same r = true := by
  cases r <;> simp [same]

theorem same_trans {r s t : Reached} (h : r.same s = true) (h' : s.same t = true) :
    r.same t = true := by
  cases r <;> cases s <;> cases t <;> simp_all [same]

end Reached

/-- Whether a type is placed or waits. -/
def Accounted (done : Placed) (waiting : List Reached) (r : Reached) : Prop :=
  done.holds r = true ∨ waiting.any (·.same r) = true

theorem Accounted.same {done : Placed} {waiting : List Reached} {r s : Reached}
    (h : Accounted done waiting r) (like : r.same s = true) : Accounted done waiting s := by
  unfold Accounted Placed.holds at h ⊢
  simp only [List.any_eq_true] at h ⊢
  rcases h with ⟨e, he, is⟩ | ⟨x, hx, is⟩
  · exact .inl ⟨e, he, Reached.same_trans is like⟩
  · exact .inr ⟨x, hx, Reached.same_trans is like⟩

theorem Accounted.append {done more : Placed} {waiting : List Reached} {r : Reached}
    (h : Accounted done waiting r) : Accounted (done ++ more) waiting r := by
  unfold Accounted Placed.holds at h ⊢
  simp only [List.any_append, Bool.or_eq_true]
  rcases h with h | h
  · exact .inl (.inl h)
  · exact .inr h

theorem accounted_last (done : Placed) (waiting : List Reached) (r : Reached) (drawn : List Draw) :
    Accounted (done ++ [(r, drawn)]) waiting r := by
  unfold Accounted Placed.holds
  simp [Reached.same_refl]

/-- Scalars that are placed behind what is placed already. -/
def OnlyScalars (more : Placed) : Prop := ∀ e ∈ more, e.1.isScalar = true ∧ e.2 = []

section

variable {fieldsOf : Reached → Outcome (List Draw)} {waiting : List Reached}

/-- What does not lead on: a scalar, or a type that is placed or waits. -/
def Leaf (waiting : List Reached) (done : Placed) (r : Reached) : Prop :=
  r.isScalar = true ∨ Accounted done waiting r

theorem Leaf.append {done more : Placed} {r : Reached} (h : Leaf waiting done r) :
    Leaf waiting (done ++ more) r :=
  h.imp id Accounted.append

theorem place_leaf (scalars : ∀ r, r.isScalar = true → fieldsOf r = .ok []) {depth : Nat}
    {done after : Placed} {r : Reached} (leaf : Leaf waiting done r)
    (h : place fieldsOf waiting (depth + 1) done r = .ok after) :
    ∃ more, after = done ++ more ∧ OnlyScalars more ∧ Accounted after waiting r := by
  unfold place at h
  split at h
  · next known =>
    cases h
    refine ⟨[], by simp, by simp [OnlyScalars], ?_⟩
    simpa [Accounted] using known
  · next unknown =>
    rcases leaf with scalar | accounted
    · rw [scalars r scalar] at h
      cases h
      exact ⟨[(r, [])], rfl, by simp [OnlyScalars, scalar], accounted_last ..⟩
    · exact absurd (by simpa [Accounted] using accounted) unknown

theorem place_leaves (scalars : ∀ r, r.isScalar = true → fieldsOf r = .ok []) {depth : Nat}
    {done after : Placed} {rs : List Reached} (leaves : ∀ r ∈ rs, Leaf waiting done r)
    (h : rs.foldlM (place fieldsOf waiting (depth + 1)) done = .ok after) :
    ∃ more, after = done ++ more ∧ OnlyScalars more ∧ ∀ r ∈ rs, Accounted after waiting r := by
  induction rs generalizing done with
  | nil =>
    cases h
    exact ⟨[], by simp, by simp [OnlyScalars], by simp⟩
  | cons r rs ih =>
    rw [List.foldlM_cons] at h
    obtain ⟨middle, first, rest⟩ := outcome_bind_ok h
    obtain ⟨more, rfl, only, known⟩ := place_leaf scalars (leaves r (by simp)) first
    obtain ⟨more', rfl, only', known'⟩ := ih (fun s hs => (leaves s (by simp [hs])).append) rest
    refine ⟨more ++ more', by simp, ?_, ?_⟩
    · intro e he
      rcases List.mem_append.1 he with he | he
      · exact only e he
      · exact only' e he
    · intro s hs
      rcases List.mem_cons.1 hs with rfl | hs
      · exact known.append
      · exact known' s hs

/-- Every placed type has its fields, and whatever they reach is placed or waits. -/
structure Consistent (fieldsOf : Reached → Outcome (List Draw)) (waiting : List Reached)
    (done : Placed) : Prop where
  drawn : ∀ e ∈ done, fieldsOf e.1 = .ok e.2
  closed : ∀ e ∈ done, ∀ x ∈ e.2.flatMap (·.reaches), Accounted done waiting x

/-- Once a type is placed, whatever waited as this type is accounted for as well. -/
theorem Accounted.turn {done more : Placed} {r x : Reached} (h : Accounted done (r :: waiting) x)
    (placed : Accounted (done ++ more) waiting r) : Accounted (done ++ more) waiting x := by
  have split : Accounted done waiting x ∨ r.same x = true := by
    unfold Accounted at h ⊢
    rw [List.any_cons, Bool.or_eq_true] at h
    rcases h with h | h | h
    · exact .inl (.inl h)
    · exact .inr h
    · exact .inl (.inr h)
  rcases split with known | like
  · exact known.append
  · exact placed.same like

/-- Every type reached by a type with fields is a scalar or one of these objects. -/
def Within (fieldsOf : Reached → Outcome (List Draw)) (objects : List String) : Prop :=
  ∀ r drawn, fieldsOf r = .ok drawn → ∀ x ∈ drawn.flatMap (·.reaches),
    x.isScalar = true ∨ ∃ n ∈ objects, x = .object n

/-- What is known of placed types once all objects are given: they are consistent, and every object is
placed or waits. -/
structure Complete (fieldsOf : Reached → Outcome (List Draw)) (objects : List String)
    (waiting : List Reached) (done : Placed) : Prop where
  consistent : Consistent fieldsOf waiting done
  all : ∀ n ∈ objects, Accounted done waiting (.object n)

variable {objects : List String}

/-- Placing the type whose turn it is keeps what is placed complete. -/
theorem Complete.place (scalars : ∀ r, r.isScalar = true → fieldsOf r = .ok [])
    (within : Within fieldsOf objects) {depth : Nat} {done after : Placed} {r : Reached}
    (before : Complete fieldsOf objects (r :: waiting) done)
    (h : place fieldsOf waiting (depth + 2) done r = .ok after) :
    (∃ more, after = done ++ more) ∧ Complete fieldsOf objects waiting after
      ∧ Accounted after waiting r := by
  obtain ⟨⟨drawn, closed⟩, all⟩ := before
  unfold Interface.place at h
  split at h
  · next known =>
    -- It was placed before, when another type reached it.
    cases h
    have placed : Accounted done waiting r := by simpa [Accounted] using known
    have turn {x : Reached} (h : Accounted done (r :: waiting) x) : Accounted done waiting x := by
      have := h.turn (show Accounted (done ++ []) waiting r by simpa using placed)
      simpa using this
    exact ⟨⟨[], by simp⟩, ⟨⟨drawn, fun e he x hx => turn (closed e he x hx)⟩,
      fun n hn => turn (all n hn)⟩, placed⟩
  · obtain ⟨fields, made, h⟩ := outcome_bind_ok h
    have leaves : ∀ x ∈ fields.flatMap (·.reaches), Leaf waiting (done ++ [(r, fields)]) x := by
      intro x hx
      rcases within r fields made x hx with scalar | ⟨n, hn, rfl⟩
      · exact .inl scalar
      · exact .inr ((all n hn).turn (accounted_last ..))
    obtain ⟨more, rfl, only, known⟩ := place_leaves scalars leaves h
    have placed : Accounted (done ++ [(r, fields)] ++ more) waiting r := (accounted_last ..).append
    have turn {x : Reached} (h : Accounted done (r :: waiting) x) :
        Accounted (done ++ [(r, fields)] ++ more) waiting x := by
      rw [List.append_assoc] at placed ⊢
      exact h.turn placed
    refine ⟨⟨(r, fields) :: more, by simp⟩, ⟨⟨?_, ?_⟩, fun n hn => turn (all n hn)⟩, placed⟩
    · intro e he
      rcases List.mem_append.1 he with he | he
      · rcases List.mem_append.1 he with he | he
        · exact drawn e he
        · rw [List.mem_singleton.1 he]
          exact made
      · rw [scalars _ (only e he).1, (only e he).2]
    · intro e he x hx
      rcases List.mem_append.1 he with he | he
      · rcases List.mem_append.1 he with he | he
        · exact turn (closed e he x hx)
        · rw [List.mem_singleton.1 he] at hx
          exact known x hx
      · rw [(only e he).2] at hx
        simp at hx

/-! ## Placing all types -/

/-- What placing one of the given types keeps, as long as the others wait, placing all of them keeps
until none waits. -/
theorem placeAll_keeps {P : List Reached → Placed → Prop} {depth : Nat}
    (step : ∀ r rest done after, P (r :: rest) done →
      Interface.place fieldsOf rest depth done r = .ok after → P rest after)
    {given : List Reached} {done after : Placed} (before : P given done)
    (h : placeAll fieldsOf depth given done = .ok after) : P [] after := by
  induction given generalizing done with
  | nil =>
    cases h
    exact before
  | cons r rest ih =>
    unfold placeAll at h
    obtain ⟨middle, first, later⟩ := outcome_bind_ok h
    exact ih (step r rest done middle before first) later

theorem placeAll_complete (scalars : ∀ r, r.isScalar = true → fieldsOf r = .ok [])
    (within : Within fieldsOf objects) {depth : Nat} {given : List Reached} {done after : Placed}
    (before : Complete fieldsOf objects given done)
    (h : placeAll fieldsOf (depth + 2) given done = .ok after) :
    Complete fieldsOf objects [] after :=
  placeAll_keeps (fun _ _ _ _ before first => (before.place scalars within first).2.1) before h

/-- A type can be said to wait. -/
theorem Complete.wait {done : Placed} (h : Complete fieldsOf objects [] done) (r : Reached) :
    Complete fieldsOf objects [r] done := by
  have weaker {x : Reached} (h : Accounted done [] x) : Accounted done [r] x := by
    rcases h with h | h
    · exact .inl h
    · simp at h
  exact ⟨⟨h.consistent.drawn, fun e he x hx => weaker (h.consistent.closed e he x hx)⟩,
    fun n hn => weaker (h.all n hn)⟩

theorem foldlM_complete (scalars : ∀ r, r.isScalar = true → fieldsOf r = .ok [])
    (within : Within fieldsOf objects) {depth : Nat} {rs : List Reached} {done after : Placed}
    (before : Complete fieldsOf objects [] done)
    (h : rs.foldlM (Interface.place fieldsOf [] (depth + 2)) done = .ok after) :
    (∃ more, after = done ++ more) ∧ Complete fieldsOf objects [] after
      ∧ ∀ r ∈ rs, Accounted after [] r := by
  induction rs generalizing done with
  | nil =>
    cases h
    exact ⟨⟨[], by simp⟩, before, by simp⟩
  | cons r rs ih =>
    rw [List.foldlM_cons] at h
    obtain ⟨middle, first, rest⟩ := outcome_bind_ok h
    obtain ⟨⟨more, rfl⟩, complete, placed⟩ := (before.wait r).place scalars within first
    obtain ⟨⟨more', rfl⟩, complete', placed'⟩ := ih complete rest
    refine ⟨⟨more ++ more', by simp⟩, complete', fun s hs => ?_⟩
    rcases List.mem_cons.1 hs with rfl | hs
    · exact placed.append
    · exact placed' s hs

end

/-- Where nothing waits, what is accounted for is placed. -/
theorem Accounted.placed {done : Placed} {r : Reached} (h : Accounted done [] r) :
    ∃ e ∈ done, e.1.same r = true := by
  rcases h with h | h
  · simpa [Placed.holds] using h
  · simp at h

end EntityGraph.Interface
