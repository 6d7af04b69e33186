import EntityGraph.Making
import Mathlib.Order.Defs.Unbundled

/-!
# Runs of computations

Declaring, calling and requesting are all computations that may fail and that keep a state, whether
they fail or not. This module says how such a computation runs: from a state to an outcome and the
state it leaves behind.

What a computation leaves as it was, and what it preserves, is one notion here. A computation keeps
a relation if it always leaves behind a state that is related to the one it started in. The relation
has to be reflexive and transitive; then whatever is made of computations that keep it keeps it too,
and only what really changes the state has anything to show.
-/

namespace EntityGraph

variable {σ α β : Type}

/-- The outcome of a computation and the state it leaves behind, from a state. -/
def runOn (x : ExceptT Fault (StateM σ) α) (s : σ) : Outcome α × σ := (x.run).run s

/-! ## How each part runs -/

@[simp] theorem runOn_pure (a : α) (s : σ) :
    runOn (pure a : ExceptT Fault (StateM σ) α) s = (.ok a, s) := rfl

@[simp] theorem runOn_throw (f : Fault) (s : σ) :
    runOn (throw f : ExceptT Fault (StateM σ) α) s = (.error f, s) := rfl

@[simp] theorem runOn_get (s : σ) :
    runOn (get : ExceptT Fault (StateM σ) σ) s = (.ok s, s) := rfl

@[simp] theorem runOn_set (t s : σ) :
    runOn (set t : ExceptT Fault (StateM σ) PUnit) s = (.ok ⟨⟩, t) := rfl

@[simp] theorem runOn_modify (g : σ → σ) (s : σ) :
    runOn (modify g : ExceptT Fault (StateM σ) PUnit) s = (.ok ⟨⟩, g s) := rfl

@[simp] theorem runOn_mk (x : Outcome α) (s : σ) :
    runOn (ExceptT.mk (pure x) : ExceptT Fault (StateM σ) α) s = (x, s) := rfl

@[simp] theorem runOn_outcome (x : Outcome α) (s : σ) :
    runOn (liftM x : ExceptT Fault (StateM σ) α) s = (x, s) := by
  cases x <;> rfl

/-- An outcome that is run is the result, and changes nothing. -/
theorem outcome_of_run {x r : Outcome α} {s t : σ}
    (h : runOn (liftM x : ExceptT Fault (StateM σ) α) s = (r, t)) : x = r ∧ s = t := by
  rw [runOn_outcome] at h
  exact Prod.ext_iff.1 h

theorem runOn_bind (x : ExceptT Fault (StateM σ) α) (f : α → ExceptT Fault (StateM σ) β) (s : σ) :
    runOn (x >>= f) s = match runOn x s with
      | (.ok a, t) => runOn (f a) t
      | (.error e, t) => (.error e, t) := by
  show (ExceptT.bindCont f (runOn x s).1) (runOn x s).2 = _
  obtain ⟨r, t⟩ := runOn x s
  cases r <;> rfl

theorem runOn_tryCatch (x : ExceptT Fault (StateM σ) α) (g : Fault → ExceptT Fault (StateM σ) α)
    (s : σ) :
    runOn (tryCatch x g) s = match runOn x s with
      | (.ok a, t) => (.ok a, t)
      | (.error e, t) => runOn (g e) t := by
  simp only [runOn, tryCatch, tryCatchThe, MonadExceptOf.tryCatch, ExceptT.tryCatch, ExceptT.run,
    ExceptT.mk, StateT.run, bind, StateT.bind]
  obtain ⟨r, t⟩ := x s
  cases r <;> rfl

theorem runOn_map (g : α → β) (x : ExceptT Fault (StateM σ) α) (s : σ) :
    runOn (g <$> x) s = ((runOn x s).1.map g, (runOn x s).2) := by
  rw [← bind_pure_comp, runOn_bind]
  split
  · next a t h => rw [h]; rfl
  · next e t h => rw [h]; rfl

theorem liftM_ok_bind (a : α) (f : α → ExceptT Fault (StateM σ) β) :
    (liftM (Except.ok a : Outcome α) : ExceptT Fault (StateM σ) α) >>= f = f a := rfl

theorem liftM_error_bind (e : Fault) (f : α → ExceptT Fault (StateM σ) β) :
    (liftM (Except.error e : Outcome α) : ExceptT Fault (StateM σ) α) >>= f = throw e := rfl

/-- A computation goes on from where the one before it succeeded. -/
theorem runOn_bind_ok {x : ExceptT Fault (StateM σ) α} {f : α → ExceptT Fault (StateM σ) β}
    {s t : σ} {a : α} (h : runOn x s = (.ok a, t)) : runOn (x >>= f) s = runOn (f a) t := by
  rw [runOn_bind, h]

/-- Looking at a world as it is now changes nothing. -/
theorem runOn_now_bind (w : World) (f : World → Making α) (t : Trail) :
    runOn (Making.now w >>= f) t = runOn (f (w.after t)) t := rfl

/-- Nothing happens after a failure. -/
theorem runOn_bind_error {x : ExceptT Fault (StateM σ) α} {f : α → ExceptT Fault (StateM σ) β}
    {s t : σ} {e : Fault} (h : runOn x s = (.error e, t)) :
    runOn (x >>= f) s = (.error e, t) := by
  rw [runOn_bind, h]

/-- What succeeds in two steps succeeds in each. -/
theorem bind_eq_ok {x : ExceptT Fault (StateM σ) α} {f : α → ExceptT Fault (StateM σ) β} {s t : σ}
    {b : β} (h : runOn (x >>= f) s = (.ok b, t)) :
    ∃ a u, runOn x s = (.ok a, u) ∧ runOn (f a) u = (.ok b, t) := by
  rw [runOn_bind] at h
  split at h
  · next a u hx => exact ⟨a, u, hx, h⟩
  · cases h

/-- What fails in two steps fails in the first one or, after that, in the second one. -/
theorem bind_eq_error {x : ExceptT Fault (StateM σ) α} {f : α → ExceptT Fault (StateM σ) β}
    {s t : σ} {e : Fault} (h : runOn (x >>= f) s = (.error e, t)) :
    runOn x s = (.error e, t) ∨ ∃ a u, runOn x s = (.ok a, u) ∧ runOn (f a) u = (.error e, t) := by
  rw [runOn_bind] at h
  split at h
  · next a u hx => exact .inr ⟨a, u, hx, h⟩
  · next e' u hx =>
    cases h
    exact .inl hx

theorem mapM_mem {f : α → ExceptT Fault (StateM σ) β} {as : List α} {bs : List β} {s t : σ}
    (h : runOn (as.mapM f) s = (.ok bs, t)) {b : β} (hb : b ∈ bs) :
    ∃ a ∈ as, ∃ u v, runOn (f a) u = (.ok b, v) := by
  induction as generalizing bs s t with
  | nil =>
    rw [List.mapM_nil] at h
    cases h
    cases hb
  | cons a as ih =>
    rw [List.mapM_cons] at h
    obtain ⟨b', u, first, h⟩ := bind_eq_ok h
    obtain ⟨bs', v, rest, h⟩ := bind_eq_ok h
    cases h
    rcases List.mem_cons.1 hb with rfl | hb
    · exact ⟨a, by simp, _, _, first⟩
    · obtain ⟨a', ha', made⟩ := ih rest hb
      exact ⟨a', by simp [ha'], made⟩

theorem mapM_error {f : α → ExceptT Fault (StateM σ) β} {as : List α} {e : Fault} {s t : σ}
    (h : runOn (as.mapM f) s = (.error e, t)) : ∃ a ∈ as, ∃ u v, runOn (f a) u = (.error e, v) := by
  induction as generalizing s t with
  | nil =>
    rw [List.mapM_nil] at h
    cases h
  | cons a as ih =>
    rw [List.mapM_cons] at h
    rcases bind_eq_error h with first | ⟨b, u, _, h⟩
    · exact ⟨a, by simp, _, _, first⟩
    · rcases bind_eq_error h with rest | ⟨bs, v, _, h⟩
      · obtain ⟨a', ha', fails⟩ := ih rest
        exact ⟨a', by simp [ha'], fails⟩
      · cases h

theorem foldlM_error {f : β → α → ExceptT Fault (StateM σ) β} {as : List α} {b : β} {e : Fault}
    {s t : σ} (h : runOn (as.foldlM f b) s = (.error e, t)) :
    ∃ a ∈ as, ∃ b' u v, runOn (f b' a) u = (.error e, v) := by
  induction as generalizing b s with
  | nil => cases h
  | cons a as ih =>
    rw [List.foldlM_cons] at h
    rcases bind_eq_error h with first | ⟨b', u, _, h⟩
    · exact ⟨a, by simp, _, _, _, first⟩
    · obtain ⟨a', ha', fails⟩ := ih h
      exact ⟨a', by simp [ha'], fails⟩

/-- What succeeds for one element after the other succeeds for each of them. -/
theorem foldlM_each {f : β → α → ExceptT Fault (StateM σ) β} {as : List α} {b c : β} {s t : σ}
    (h : runOn (as.foldlM f b) s = (.ok c, t)) {a : α} (ha : a ∈ as) :
    ∃ b' c' u v, runOn (f b' a) u = (.ok c', v) := by
  induction as generalizing b s with
  | nil => cases ha
  | cons a' as ih =>
    rw [List.foldlM_cons] at h
    obtain ⟨c', u, first, h⟩ := bind_eq_ok h
    rcases List.mem_cons.1 ha with rfl | ha
    · exact ⟨_, _, _, _, first⟩
    · exact ih h ha

/-! ## What computations keep -/

/-- Whether a computation always leaves behind a state that is related to the one it started in. -/
def Keeps (R : σ → σ → Prop) (x : ExceptT Fault (StateM σ) α) : Prop :=
  ∀ s, R s (runOn x s).2

/-- What a computation keeps relates the ends of each of its runs. -/
theorem keeps_run {R : σ → σ → Prop} {x : ExceptT Fault (StateM σ) α} (h : Keeps R x) {s t : σ}
    {r : Outcome α} (run : runOn x s = (r, t)) : R s t := by
  have kept := h s
  rw [run] at kept
  exact kept

theorem keeps_mono {R R' : σ → σ → Prop} {x : ExceptT Fault (StateM σ) α}
    (sub : ∀ s t, R s t → R' s t) (h : Keeps R x) : Keeps R' x :=
  fun s => sub _ _ (h s)

theorem keeps_ite {R : σ → σ → Prop} {c : Prop} [Decidable c] {x y : ExceptT Fault (StateM σ) α}
    (hx : c → Keeps R x) (hy : ¬c → Keeps R y) : Keeps R (if c then x else y) := by
  split
  · next h => exact hx h
  · next h => exact hy h

section

variable {R : σ → σ → Prop} [IsPreorder σ R]

theorem keeps_pure (a : α) : Keeps R (pure a : ExceptT Fault (StateM σ) α) :=
  fun s => Std.Refl.refl s

theorem keeps_throw (f : Fault) : Keeps R (throw f : ExceptT Fault (StateM σ) α) :=
  fun s => Std.Refl.refl s

theorem keeps_get : Keeps R (get : ExceptT Fault (StateM σ) σ) := fun s => Std.Refl.refl s

theorem keeps_bind {x : ExceptT Fault (StateM σ) α} {f : α → ExceptT Fault (StateM σ) β}
    (hx : Keeps R x) (hf : ∀ a, Keeps R (f a)) : Keeps R (x >>= f) := by
  intro s
  have first := hx s
  rw [runOn_bind]
  split
  · next a t h =>
    rw [h] at first
    exact IsTrans.trans _ _ _ first (hf a t)
  · next e t h =>
    rw [h] at first
    exact first

/-- What is refused in some cases, and goes on in the others. -/
theorem keeps_guard {c : Prop} [Decidable c] {f : Fault} {y : PUnit → ExceptT Fault (StateM σ) α}
    (h : Keeps R (y ⟨⟩)) : Keeps R (if c then throw f >>= y else y ⟨⟩) :=
  keeps_ite (fun _ => keeps_throw f) fun _ => h

theorem keeps_tryCatch {x : ExceptT Fault (StateM σ) α} {g : Fault → ExceptT Fault (StateM σ) α}
    (hx : Keeps R x) (hg : ∀ f, Keeps R (g f)) : Keeps R (tryCatch x g) := by
  intro s
  have first := hx s
  rw [runOn_tryCatch]
  split
  · next a t h =>
    rw [h] at first
    exact first
  · next e t h =>
    rw [h] at first
    exact IsTrans.trans _ _ _ first (hg e t)

theorem keeps_forM {f : α → ExceptT Fault (StateM σ) PUnit} (as : List α)
    (h : ∀ a ∈ as, Keeps R (f a)) : Keeps R (as.forM f) := by
  induction as with
  | nil => exact keeps_pure _
  | cons a as ih =>
    refine keeps_bind (h a (by simp)) fun _ => ?_
    exact ih fun b hb => h b (by simp [hb])

theorem keeps_mapM {f : α → ExceptT Fault (StateM σ) β} (as : List α)
    (h : ∀ a ∈ as, Keeps R (f a)) : Keeps R (as.mapM f) := by
  induction as with
  | nil =>
    rw [List.mapM_nil]
    exact keeps_pure _
  | cons a as ih =>
    rw [List.mapM_cons]
    refine keeps_bind (h a (by simp)) fun b => ?_
    refine keeps_bind (ih fun c hc => h c (by simp [hc])) fun bs => ?_
    exact keeps_pure _

end

/-- What succeeds for each element, wherever it gets to from where it starts, succeeds for a list. -/
theorem forM_ok {R : σ → σ → Prop} [IsPreorder σ R] {f : α → ExceptT Fault (StateM σ) PUnit}
    {l : List α} {s : σ}
    (each : ∀ a ∈ l, ∀ t, R s t → ∃ u, R t u ∧ runOn (f a) t = (.ok ⟨⟩, u)) :
    ∃ u, R s u ∧ runOn (l.forM f) s = (.ok ⟨⟩, u) := by
  induction l generalizing s with
  | nil => exact ⟨s, Std.Refl.refl s, rfl⟩
  | cons a l ih =>
    rw [List.forall_mem_cons] at each
    obtain ⟨t, step, first⟩ := each.1 s (Std.Refl.refl s)
    obtain ⟨u, steps, rest⟩ := ih fun b hb t' further =>
      each.2 b hb t' (IsTrans.trans _ _ _ step further)
    refine ⟨u, IsTrans.trans _ _ _ step steps, ?_⟩
    show runOn (f a >>= fun _ => l.forM f) s = _
    rw [runOn_bind_ok first, rest]

/-- Whether a computation succeeds is whether there is a result. -/
theorem isOk_iff {x : ExceptT Fault (StateM σ) α} {s : σ} :
    (runOn x s).1.isOk = true ↔ ∃ a t, runOn x s = (.ok a, t) := by
  obtain ⟨r, t⟩ := runOn x s
  cases r <;> simp [Except.isOk, Except.toBool]

/-! ## Outcomes -/

theorem outcome_bind_ok {x : Outcome α} {f : α → Outcome β} {b : β} (h : (x >>= f) = .ok b) :
    ∃ a, x = .ok a ∧ f a = .ok b := by
  cases x with
  | error e => cases h
  | ok a => exact ⟨a, rfl, h⟩

theorem outcome_bind_error {x : Outcome α} {f : α → Outcome β} {e : Fault}
    (h : (x >>= f) = .error e) : x = .error e ∨ ∃ a, x = .ok a ∧ f a = .error e := by
  cases x with
  | error e' =>
    cases h
    exact .inl rfl
  | ok a => exact .inr ⟨a, rfl, h⟩

theorem outcome_mapError_ok {x : Outcome α} {g : Fault → Fault} {a : α}
    (h : x.mapError g = .ok a) : x = .ok a := by
  cases x with
  | error e => cases h
  | ok b =>
    cases h
    rfl

theorem outcome_toOption {x : Outcome α} {a : α} : x.toOption = some a ↔ x = .ok a := by
  cases x <;> simp [Except.toOption]

/-- What is made one by one is found where what it is made of is found. -/
theorem outcome_mapM_find? {f : α → Outcome β} {as : List α} {bs : List β}
    (h : as.mapM f = .ok bs) {p : α → Bool} {q : β → Bool}
    (agree : ∀ a b, f a = .ok b → p a = q b) {b : β} (found : bs.find? q = some b) :
    ∃ a, as.find? p = some a ∧ f a = .ok b := by
  induction as generalizing bs with
  | nil =>
    rw [List.mapM_nil] at h
    cases h
    cases found
  | cons a as ih =>
    rw [List.mapM_cons] at h
    obtain ⟨b', first, h⟩ := outcome_bind_ok h
    obtain ⟨bs', rest, h⟩ := outcome_bind_ok h
    cases h
    have same := agree a b' first
    cases passes : q b' with
    | true =>
      rw [List.find?_cons_of_pos passes] at found
      cases found
      exact ⟨a, List.find?_cons_of_pos (same.trans passes), first⟩
    | false =>
      rw [List.find?_cons_of_neg (by simp [passes])] at found
      obtain ⟨a', ha', made⟩ := ih rest found
      exact ⟨a', by rw [List.find?_cons_of_neg (by simp [same, passes]), ha'], made⟩

theorem outcome_mapM_mem {f : α → Outcome β} {as : List α} {bs : List β}
    (h : as.mapM f = .ok bs) {b : β} (hb : b ∈ bs) : ∃ a ∈ as, f a = .ok b := by
  induction as generalizing bs with
  | nil =>
    rw [List.mapM_nil] at h
    cases h
    cases hb
  | cons a as ih =>
    rw [List.mapM_cons] at h
    obtain ⟨b', first, h⟩ := outcome_bind_ok h
    obtain ⟨bs', rest, h⟩ := outcome_bind_ok h
    cases h
    rcases List.mem_cons.1 hb with rfl | hb
    · exact ⟨a, by simp, first⟩
    · obtain ⟨a', ha', made⟩ := ih rest hb
      exact ⟨a', by simp [ha'], made⟩

theorem outcome_mapM_each {f : α → Outcome β} {as : List α} {bs : List β}
    (h : as.mapM f = .ok bs) {a : α} (ha : a ∈ as) : ∃ b, f a = .ok b ∧ b ∈ bs := by
  induction as generalizing bs with
  | nil => cases ha
  | cons a' as ih =>
    rw [List.mapM_cons] at h
    obtain ⟨b, first, h⟩ := outcome_bind_ok h
    obtain ⟨bs', rest, h⟩ := outcome_bind_ok h
    cases h
    rcases List.mem_cons.1 ha with rfl | ha
    · exact ⟨b, first, by simp⟩
    · obtain ⟨b', made, hb⟩ := ih rest ha
      exact ⟨b', made, by simp [hb]⟩

theorem outcome_mapM_map {f : α → Outcome β} {g : β → α} (bs : List β)
    (each : ∀ b, f (g b) = .ok b) : (bs.map g).mapM f = .ok bs := by
  induction bs with
  | nil => rfl
  | cons b bs ih =>
    rw [List.map_cons, List.mapM_cons, each, ih]
    rfl

/-- What every step of a fold keeps holds at its end. -/
theorem outcome_foldlM_keeps {f : β → α → Outcome β} {P : β → Prop} {as : List α} {b c : β}
    (step : ∀ a ∈ as, ∀ b c, P b → f b a = .ok c → P c) (before : P b)
    (h : as.foldlM f b = .ok c) : P c := by
  induction as generalizing b with
  | nil =>
    cases h
    exact before
  | cons a as ih =>
    rw [List.foldlM_cons] at h
    obtain ⟨b', first, rest⟩ := outcome_bind_ok h
    rw [List.forall_mem_cons] at step
    exact ih step.2 (step.1 b b' before first) rest

theorem outcome_mapM_nil {f : α → Outcome β} {as : List α}
    (h : as.mapM f = .ok []) : as = [] := by
  cases as with
  | nil => rfl
  | cons a as =>
    rw [List.mapM_cons] at h
    obtain ⟨b, _, h⟩ := outcome_bind_ok h
    obtain ⟨bs, _, h⟩ := outcome_bind_ok h
    cases h

theorem outcome_mapM_ok {f : α → Outcome β} {as : List α} (each : ∀ a ∈ as, ∃ b, f a = .ok b) :
    ∃ bs, as.mapM f = .ok bs := by
  induction as with
  | nil => exact ⟨[], rfl⟩
  | cons a as ih =>
    rw [List.forall_mem_cons] at each
    obtain ⟨b, first⟩ := each.1
    obtain ⟨bs, rest⟩ := ih each.2
    exact ⟨b :: bs, by rw [List.mapM_cons, first, rest]; rfl⟩

/-- What is made of the elements of a list can be made of others that are made into the same. -/
theorem outcome_mapM_subset {γ : Type} {f : α → Outcome γ} {g : β → Outcome γ} {as : List α}
    {bs : List β} {cs : List γ} (made : as.mapM f = .ok cs)
    (each : ∀ b ∈ bs, ∃ a ∈ as, f a = g b) : ∃ cs', bs.mapM g = .ok cs' ∧ cs' ⊆ cs := by
  have among : ∀ b ∈ bs, ∃ c, g b = .ok c ∧ c ∈ cs := by
    intro b hb
    obtain ⟨a, ha, same⟩ := each b hb
    obtain ⟨c, is, hc⟩ := outcome_mapM_each made ha
    exact ⟨c, same ▸ is, hc⟩
  obtain ⟨cs', made'⟩ := outcome_mapM_ok fun b hb => (among b hb).imp fun _ h => h.1
  refine ⟨cs', made', fun c hc => ?_⟩
  obtain ⟨b, hb, is⟩ := outcome_mapM_mem made' hc
  obtain ⟨c', is', hc'⟩ := among b hb
  exact Except.ok.inj (is.symm.trans is') ▸ hc'

theorem outcome_forM_ok {f : α → Outcome Unit} {as : List α} :
    as.forM f = .ok () ↔ ∀ a ∈ as, f a = .ok () := by
  induction as with
  | nil => exact ⟨fun _ => nofun, fun _ => rfl⟩
  | cons a as ih =>
    rw [List.forall_mem_cons, ← ih]
    constructor
    · intro h
      obtain ⟨_, first, rest⟩ := outcome_bind_ok h
      exact ⟨first, rest⟩
    · rintro ⟨first, rest⟩
      show f a >>= _ = _
      rw [first]
      exact rest

theorem outcome_foldlM_ok {f : β → α → Outcome β} {as : List α} {b : β}
    (each : ∀ a ∈ as, ∀ b, ∃ c, f b a = .ok c) : ∃ c, as.foldlM f b = .ok c := by
  induction as generalizing b with
  | nil => exact ⟨b, rfl⟩
  | cons a as ih =>
    rw [List.forall_mem_cons] at each
    obtain ⟨c, first⟩ := each.1 b
    obtain ⟨d, rest⟩ := ih (b := c) each.2
    exact ⟨d, by rw [List.foldlM_cons, first]; exact rest⟩

end EntityGraph
