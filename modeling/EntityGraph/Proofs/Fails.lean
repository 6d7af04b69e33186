import EntityGraph.Proofs.Run
import EntityGraph.Making

/-!
# What computations fail with

A computation fails with faults of some sort only, if each of its parts does. The sort is a property
of faults here, so that one walk through a computation serves every question about its faults: the
sorts differ in what they say of the faults that the computation raises itself.
-/

namespace EntityGraph

variable {σ α β : Type} {P Q : Fault → Prop}

/-! ## Outcomes -/

/-- Whether an outcome is no other fault than one of a sort. -/
def FaultsIn (P : Fault → Prop) (x : Outcome α) : Prop := ∀ e, x = .error e → P e

theorem faultsIn_ok (a : α) : FaultsIn P (.ok a : Outcome α) := nofun

theorem faultsIn_error {e : Fault} (h : P e) : FaultsIn P (.error e : Outcome α) := by
  intro e' same
  cases same
  exact h

theorem faultsIn_bind {x : Outcome α} {f : α → Outcome β} (hx : FaultsIn P x)
    (hf : ∀ a, x = .ok a → FaultsIn P (f a)) : FaultsIn P (x >>= f) := by
  intro e h
  rcases outcome_bind_error h with h | ⟨a, ha, h⟩
  · exact hx e h
  · exact hf a ha e h

theorem faultsIn_mapM {f : α → Outcome β} (as : List α) (h : ∀ a ∈ as, FaultsIn P (f a)) :
    FaultsIn P (as.mapM f) := by
  induction as with
  | nil => exact faultsIn_ok _
  | cons a as ih =>
    rw [List.mapM_cons]
    refine faultsIn_bind (h a (by simp)) fun b _ => ?_
    exact faultsIn_bind (ih fun c hc => h c (by simp [hc])) fun bs _ => faultsIn_ok _

/-! ## Computations -/

/-- Whether a computation fails with faults of a sort only. -/
def FailsWith (P : Fault → Prop) (x : ExceptT Fault (StateM σ) α) : Prop :=
  ∀ a b e, runOn x a = (.error e, b) → P e

theorem failsWith_mono {x : ExceptT Fault (StateM σ) α} (h : FailsWith P x)
    (sub : ∀ e, P e → Q e) : FailsWith Q x :=
  fun a b e run => sub e (h a b e run)

theorem failsWith_pure (a : α) : FailsWith P (pure a : ExceptT Fault (StateM σ) α) := nofun

theorem failsWith_outcome {x : Outcome α} (h : FaultsIn P x) :
    FailsWith P (liftM x : ExceptT Fault (StateM σ) α) :=
  fun _ _ e run => h e (outcome_of_run run).1

theorem failsWith_throw {f : Fault} (h : P f) :
    FailsWith P (throw f : ExceptT Fault (StateM σ) α) := by
  intro a b e run
  cases run
  exact h

/-- What follows may rest on the runs of what came before. -/
theorem failsWith_bind {x : ExceptT Fault (StateM σ) α} {f : α → ExceptT Fault (StateM σ) β}
    (hx : FailsWith P x) (hf : ∀ v a b, runOn x a = (.ok v, b) → FailsWith P (f v)) :
    FailsWith P (x >>= f) := by
  intro a b e run
  rcases bind_eq_error run with first | ⟨v, m, first, second⟩
  · exact hx a b e first
  · exact hf v a m first m b e second

theorem failsWith_then {x : ExceptT Fault (StateM σ) α} {f : α → ExceptT Fault (StateM σ) β}
    (hx : FailsWith P x) (hf : ∀ v, FailsWith P (f v)) : FailsWith P (x >>= f) :=
  failsWith_bind hx fun v _ _ _ => hf v

theorem failsWith_ite {c : Prop} [Decidable c] {x y : ExceptT Fault (StateM σ) α}
    (hx : c → FailsWith P x) (hy : ¬c → FailsWith P y) : FailsWith P (if c then x else y) := by
  split
  · next h => exact hx h
  · next h => exact hy h

/-- What is refused in some cases, and goes on in the others. -/
theorem failsWith_guard {c : Prop} [Decidable c] {f : Fault}
    {y : PUnit → ExceptT Fault (StateM σ) α} (refused : c → P f) (h : ¬c → FailsWith P (y ⟨⟩)) :
    FailsWith P (if c then throw f >>= y else y ⟨⟩) :=
  failsWith_ite (fun holds => failsWith_throw (refused holds)) h

theorem failsWith_mapM {f : α → ExceptT Fault (StateM σ) β} (as : List α)
    (h : ∀ a ∈ as, FailsWith P (f a)) : FailsWith P (as.mapM f) := by
  intro a b e run
  obtain ⟨x, hx, c, d, fails⟩ := mapM_error run
  exact h x hx c d e fails

/-- What never fails fails with no fault. -/
theorem failsWith_total {x : ExceptT Fault (StateM σ) α} (h : ∀ a, ∃ v b, runOn x a = (.ok v, b)) :
    FailsWith P x := by
  intro a b e run
  obtain ⟨v, m, ok⟩ := h a
  rw [ok] at run
  cases run

theorem failsWith_forM {f : α → ExceptT Fault (StateM σ) PUnit} (as : List α)
    (h : ∀ a ∈ as, FailsWith P (f a)) : FailsWith P (as.forM f) := by
  induction as with
  | nil => exact failsWith_pure _
  | cons a as ih =>
    rw [List.forall_mem_cons] at h
    exact failsWith_then h.1 fun _ => ih h.2

/-- What fails with no fault succeeds. -/
theorem FailsWith.succeeds {x : ExceptT Fault (StateM σ) α} (h : FailsWith (fun _ => False) x) (s : σ) :
    ∃ a t, runOn x s = (.ok a, t) := by
  cases run : runOn x s with
  | mk r t =>
    cases r with
    | ok a => exact ⟨a, t, rfl⟩
    | error e => exact (h s t e run).elim

end EntityGraph

/-!
## What computations maintain

A property of states is maintained by a computation if it holds afterwards whenever it held before,
whether the computation fails or not. What a computation may fail with can rest on such a property,
so both are said at once: from a state with the property, the computation fails with faults of a sort
only, and the property holds again.
-/

set_option linter.unusedSectionVars false

namespace EntityGraph

variable {σ α β : Type} {I : σ → Prop} {E : Fault → Prop}

/-- Whether a computation maintains a property of states, from which it fails with faults of a sort
only. -/
def Maintains (I : σ → Prop) (E : Fault → Prop) (x : ExceptT Fault (StateM σ) α) : Prop :=
  ∀ s, I s → FaultsIn E (runOn x s).1 ∧ I (runOn x s).2

theorem Maintains.run {x : ExceptT Fault (StateM σ) α} (h : Maintains I E x) {s t : σ}
    {r : Outcome α} (before : I s) (run : runOn x s = (r, t)) : FaultsIn E r ∧ I t := by
  have both := h s before
  rw [run] at both
  exact both

theorem maintains_pure (a : α) : Maintains I E (pure a : ExceptT Fault (StateM σ) α) :=
  fun _ before => ⟨faultsIn_ok a, before⟩

theorem maintains_outcome {x : Outcome α} (h : FaultsIn E x) :
    Maintains I E (liftM x : ExceptT Fault (StateM σ) α) := by
  intro s before
  rw [runOn_outcome]
  exact ⟨h, before⟩

theorem maintains_bind {x : ExceptT Fault (StateM σ) α} {f : α → ExceptT Fault (StateM σ) β}
    (hx : Maintains I E x) (hf : ∀ a, Maintains I E (f a)) : Maintains I E (x >>= f) := by
  intro s before
  rw [runOn_bind]
  split
  · next a t run => exact hf a t (hx.run before run).2
  · next e t run =>
    obtain ⟨fails, after⟩ := hx.run before run
    exact ⟨faultsIn_error (fails e rfl), after⟩

theorem maintains_ite {c : Prop} [Decidable c] {x y : ExceptT Fault (StateM σ) α}
    (hx : c → Maintains I E x) (hy : ¬c → Maintains I E y) :
    Maintains I E (if c then x else y) := by
  split
  · next h => exact hx h
  · next h => exact hy h

/-! ## Making things -/

section

variable {I : Trail → Prop} (numbered : ∀ t, I t → I { t with supply := t.supply + 1 })

theorem maintains_now (w : World) : Maintains I E (Making.now w) :=
  fun _ before => ⟨faultsIn_ok _, before⟩

include numbered

theorem maintains_newNumber : Maintains I E Making.newNumber :=
  fun t before => ⟨faultsIn_ok _, numbered t before⟩

namespace Value

theorem maintains_owned (v : Value) : Maintains I E v.owned :=
  maintains_ite (fun _ => maintains_bind (maintains_newNumber numbered) fun _ => maintains_pure _)
    fun _ => maintains_pure _

mutual

theorem maintains_settled (v : Value) : Maintains I E v.settled := by
  cases v with
  | list vs => exact maintains_bind (maintains_settledList vs) fun _ => maintains_pure _
  | tuple vs => exact maintains_bind (maintains_settledList vs) fun _ => maintains_pure _
  | dict es => exact maintains_bind (maintains_settledEntries es) fun _ => maintains_pure _
  | orderedDict es m =>
    exact maintains_bind (maintains_settledEntries es) fun _ => maintains_owned numbered _
  | _ => exact maintains_owned numbered _

theorem maintains_settledList (vs : List Value) : Maintains I E (settledList vs) := by
  cases vs with
  | nil => exact maintains_pure _
  | cons v vs =>
    refine maintains_bind (maintains_settled v) fun u => ?_
    exact maintains_bind (maintains_settledList vs) fun us => maintains_pure _

theorem maintains_settledEntries (es : List (Value × Value)) :
    Maintains I E (settledEntries es) := by
  cases es with
  | nil => exact maintains_pure _
  | cons e es =>
    obtain ⟨k, v⟩ := e
    refine maintains_bind (maintains_settled k) fun k' => ?_
    refine maintains_bind (maintains_settled v) fun v' => ?_
    exact maintains_bind (maintains_settledEntries es) fun es' => maintains_pure _

end

/-- Making a value an object of its own uses up numbers and does nothing else. -/
theorem maintains_own {x : Outcome Value} (h : FaultsIn E x) : Maintains I E (own x) := by
  refine maintains_bind (maintains_outcome h) fun v => ?_
  exact maintains_ite (fun _ => maintains_settled numbered v) fun _ => maintains_pure v

end Value

end

end EntityGraph
