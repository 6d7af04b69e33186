import EntityGraph.Proofs.Run
import EntityGraph.Eval.Evaluate
import Mathlib.Data.List.Forall2

/-!
# Computations that cannot be told apart

One computation may run at two different times, with other things made and assigned in between. What
this does to it is a matter of two runs, so everything here is about a pair of computations, the one
from what came of one memory and the other from what came of another.

Two computations are steady if, whatever became of the two memories, they come out alike: both give
values, which are related as they are to be, or both fail with faults of one kind; and if each of
them leaves behind only what may become of a memory. How the values are related may depend on the
memories at the two ends. Steady computations can be put one after the other, which is all that is
needed here, as nothing looks into a memory except for the computations that are given as steady.
-/

namespace EntityGraph

/-- States that hold a memory. -/
class Remembering (σ : Type) where
  memory : σ → Memory

instance : Remembering Trail := ⟨Trail.memory⟩

open Remembering (memory)

section

variable {α β α' β' : Type}

/-- Whether both outcomes are values, which are related, or both are faults, of one kind. -/
def Matches (Q : α → β → Prop) : Outcome α → Outcome β → Prop
  | .ok a, .ok b => Q a b
  | .error e, .error f => e.kind = f.kind
  | _, _ => False

theorem Matches.mono {Q R : α → β → Prop} {x : Outcome α} {y : Outcome β} (h : Matches Q x y)
    (sub : ∀ a b, Q a b → R a b) : Matches R x y := by
  cases x <;> cases y
  · exact h
  · exact h
  · exact h
  · exact sub _ _ h

theorem Matches.map {Q : α → β → Prop} {R : α' → β' → Prop} {x : Outcome α} {y : Outcome β}
    (h : Matches Q x y) {f : α → α'} {g : β → β'} (sub : ∀ a b, Q a b → R (f a) (g b)) :
    Matches R (x.map f) (y.map g) := by
  cases x <;> cases y
  · exact h
  · exact h
  · exact h
  · exact sub _ _ h

theorem matches_refl {Q : α → α → Prop} (x : Outcome α) (h : ∀ a, x = .ok a → Q a a) :
    Matches Q x x := by
  cases x with
  | error e => exact Eq.refl e.kind
  | ok a => exact h a rfl

variable {σ : Type} [Remembering σ]

/-- Whether two computations come out alike, whatever became of two memories, and leave behind what
may become of them. -/
def Steady (later : Memory → Memory → Prop) (m m' : Memory) (Q : α → Memory → β → Memory → Prop)
    (x : ExceptT Fault (StateM σ) α) (y : ExceptT Fault (StateM σ) β) : Prop :=
  ∀ t t' : σ, later m (memory t) → later m' (memory t') →
    later (memory t) (memory (runOn x t).2) ∧ later (memory t') (memory (runOn y t').2)
      ∧ Matches (fun a b => Q a (memory (runOn x t).2) b (memory (runOn y t').2))
        (runOn x t).1 (runOn y t').1

/-- Whether a relation of values lasts while memories change. -/
def Lasting (later : Memory → Memory → Prop) (Q : α → Memory → β → Memory → Prop) : Prop :=
  ∀ a m b m' n n', later m n → later m' n' → Q a m b m' → Q a n b n'

variable {later : Memory → Memory → Prop} {m m' : Memory} {Q : α → Memory → β → Memory → Prop}
  {R : α' → Memory → β' → Memory → Prop}

/-- The runs of steady computations that succeed, as far as one of them does. -/
theorem Steady.run {x : ExceptT Fault (StateM σ) α} {y : ExceptT Fault (StateM σ) β}
    (h : Steady later m m' Q x y) {t t' u u' : σ} {r : Outcome α} {r' : Outcome β}
    (ht : later m (memory t)) (ht' : later m' (memory t')) (hx : runOn x t = (r, u))
    (hy : runOn y t' = (r', u')) :
    later (memory t) (memory u) ∧ later (memory t') (memory u')
      ∧ Matches (fun a b => Q a (memory u) b (memory u')) r r' := by
  have both := h t t' ht ht'
  rw [hx, hy] at both
  exact both

theorem steady_throw [IsPreorder Memory later] {e f : Fault} (same : e.kind = f.kind) :
    Steady later m m' Q (throw e : ExceptT Fault (StateM σ) α)
      (throw f : ExceptT Fault (StateM σ) β) :=
  fun _ _ _ _ => ⟨Std.Refl.refl _, Std.Refl.refl _, same⟩

theorem steady_outcome [IsPreorder Memory later] {x : Outcome α} {y : Outcome β}
    (h : ∀ n n', later m n → later m' n' → Matches (fun a b => Q a n b n') x y) :
    Steady later m m' Q (liftM x : ExceptT Fault (StateM σ) α)
      (liftM y : ExceptT Fault (StateM σ) β) := by
  intro t t' ht ht'
  rw [runOn_outcome, runOn_outcome]
  exact ⟨Std.Refl.refl _, Std.Refl.refl _, h _ _ ht ht'⟩

/-- What always succeeds and leaves the memory as it is. -/
theorem steady_of_ok [IsPreorder Memory later] {x : ExceptT Fault (StateM σ) α}
    {y : ExceptT Fault (StateM σ) β}
    (h : ∀ t t' : σ, later m (memory t) → later m' (memory t') →
      ∃ a b u u', (runOn x t = (.ok a, u) ∧ memory u = memory t)
        ∧ (runOn y t' = (.ok b, u') ∧ memory u' = memory t') ∧ Q a (memory t) b (memory t')) :
    Steady later m m' Q x y := by
  intro t t' ht ht'
  obtain ⟨a, b, u, u', ⟨hx, same⟩, ⟨hy, same'⟩, related⟩ := h t t' ht ht'
  rw [hx, hy, same, same']
  exact ⟨Std.Refl.refl _, Std.Refl.refl _, related⟩

theorem steady_pure [IsPreorder Memory later] {a : α} {b : β}
    (h : ∀ n n', later m n → later m' n' → Q a n b n') :
    Steady later m m' Q (pure a : ExceptT Fault (StateM σ) α)
      (pure b : ExceptT Fault (StateM σ) β) :=
  steady_of_ok fun _ _ ht ht' => ⟨a, b, _, _, ⟨rfl, rfl⟩, ⟨rfl, rfl⟩, h _ _ ht ht'⟩

/-- What is steady from two memories is steady from what became of them. -/
theorem Steady.onwards [IsTrans Memory later] {x : ExceptT Fault (StateM σ) α}
    {y : ExceptT Fault (StateM σ) β} (h : Steady later m m' Q x y) {n n' : Memory}
    (hn : later m n) (hn' : later m' n') : Steady later n n' Q x y :=
  fun t t' ht ht' => h t t' (IsTrans.trans _ _ _ hn ht) (IsTrans.trans _ _ _ hn' ht')

theorem Steady.mono [IsTrans Memory later] {Q' : α → Memory → β → Memory → Prop}
    {x : ExceptT Fault (StateM σ) α} {y : ExceptT Fault (StateM σ) β}
    (h : Steady later m m' Q x y)
    (sub : ∀ a n b n', later m n → later m' n' → Q a n b n' → Q' a n b n') :
    Steady later m m' Q' x y := by
  intro t t' ht ht'
  obtain ⟨after, after', both⟩ := h t t' ht ht'
  exact ⟨after, after', both.mono fun a b => sub a _ b _ (IsTrans.trans _ _ _ ht after)
    (IsTrans.trans _ _ _ ht' after')⟩

/-- What follows may rest on the very runs of what came before. -/
theorem steady_bind_of_run [IsTrans Memory later] {x : ExceptT Fault (StateM σ) α}
    {y : ExceptT Fault (StateM σ) β} {f : α → ExceptT Fault (StateM σ) α'}
    {g : β → ExceptT Fault (StateM σ) β'} (first : Steady later m m' Q x y)
    (rest : ∀ t t' u u' a b, runOn x t = (.ok a, u) → runOn y t' = (.ok b, u') →
      later m (memory u) → later m' (memory u') → Q a (memory u) b (memory u') →
        later (memory u) (memory (runOn (f a) u).2) ∧ later (memory u') (memory (runOn (g b) u').2)
          ∧ Matches (fun c d => R c (memory (runOn (f a) u).2) d (memory (runOn (g b) u').2))
            (runOn (f a) u).1 (runOn (g b) u').1) :
    Steady later m m' R (x >>= f) (y >>= g) := by
  intro t t' ht ht'
  cases hx : runOn x t with
  | mk r u =>
    cases hy : runOn y t' with
    | mk r' u' =>
      obtain ⟨after, after', both⟩ := first.run ht ht' hx hy
      cases r with
      | error e =>
        cases r' with
        | ok b => cases both
        | error e' =>
          rw [runOn_bind_error hx, runOn_bind_error hy]
          exact ⟨after, after', both⟩
      | ok a =>
        cases r' with
        | error e' => cases both
        | ok b =>
          rw [runOn_bind_ok hx, runOn_bind_ok hy]
          obtain ⟨end_, end', related⟩ := rest t t' u u' a b hx hy (IsTrans.trans _ _ _ ht after)
            (IsTrans.trans _ _ _ ht' after') both
          exact ⟨IsTrans.trans _ _ _ after end_, IsTrans.trans _ _ _ after' end', related⟩

theorem steady_bind [IsPreorder Memory later] {x : ExceptT Fault (StateM σ) α}
    {y : ExceptT Fault (StateM σ) β} {f : α → ExceptT Fault (StateM σ) α'}
    {g : β → ExceptT Fault (StateM σ) β'} (first : Steady later m m' Q x y)
    (rest : ∀ a b n n', later m n → later m' n' → Q a n b n' →
      Steady later n n' R (f a) (g b)) :
    Steady later m m' R (x >>= f) (y >>= g) :=
  steady_bind_of_run first fun _ _ u u' a b _ _ hu hu' related =>
    rest a b _ _ hu hu' related u u' (Std.Refl.refl _) (Std.Refl.refl _)

theorem steady_ite {c c' : Prop} [Decidable c] [Decidable c'] (same : c ↔ c')
    {x y : ExceptT Fault (StateM σ) α} {x' y' : ExceptT Fault (StateM σ) β}
    (yes : c → c' → Steady later m m' Q x x') (no : ¬c → ¬c' → Steady later m m' Q y y') :
    Steady later m m' Q (if c then x else y) (if c' then x' else y') := by
  by_cases h : c
  · rw [if_pos h, if_pos (same.1 h)]
    exact yes h (same.1 h)
  · have h' : ¬c' := fun holds => h (same.2 holds)
    rw [if_neg h, if_neg h']
    exact no h h'

/-- What is refused in some cases, and goes on in the others. -/
theorem steady_guard [IsPreorder Memory later] {c c' : Prop} [Decidable c] [Decidable c']
    (same : c ↔ c') {e e' : Fault} (kind : e.kind = e'.kind)
    {x : PUnit → ExceptT Fault (StateM σ) α} {y : PUnit → ExceptT Fault (StateM σ) β}
    (h : ¬c → ¬c' → Steady later m m' Q (x ⟨⟩) (y ⟨⟩)) :
    Steady later m m' Q (if c then throw e >>= x else x ⟨⟩) (if c' then throw e' >>= y else y ⟨⟩) :=
  steady_ite same (fun _ _ => steady_throw kind) h

theorem steady_mapM [IsPreorder Memory later] (lasting : Lasting later Q)
    {f : α' → ExceptT Fault (StateM σ) α} {g : β' → ExceptT Fault (StateM σ) β} {as : List α'}
    {bs : List β'} (all : List.Forall₂ (fun a b => Steady later m m' Q (f a) (g b)) as bs) :
    Steady later m m' (fun us n vs n' => List.Forall₂ (fun u v => Q u n v n') us vs)
      (as.mapM f) (bs.mapM g) := by
  induction all with
  | nil =>
    rw [List.mapM_nil, List.mapM_nil]
    exact steady_pure fun _ _ _ _ => .nil
  | cons here _ ih =>
    rw [List.mapM_cons, List.mapM_cons]
    refine steady_bind here fun u v n n' hn hn' first => ?_
    refine steady_bind (ih.onwards hn hn') fun us vs k k' hk hk' others => ?_
    refine steady_pure fun l l' hl hl' => .cons ?_ (others.imp fun a b => ?_)
    · exact lasting _ _ _ _ _ _ (IsTrans.trans _ _ _ hk hl) (IsTrans.trans _ _ _ hk' hl') first
    · exact lasting _ _ _ _ _ _ hl hl'

theorem steady_foldlM [IsPreorder Memory later] (lasting : Lasting later Q)
    {f : α → α' → ExceptT Fault (StateM σ) α} {g : β → α' → ExceptT Fault (StateM σ) β} {as : List α'}
    (each : ∀ a ∈ as, ∀ {b c n n'}, later m n → later m' n' → Q b n c n' →
      Steady later n n' Q (f b a) (g c a))
    {b : α} {c : β} (start : Q b m c m') :
    Steady later m m' Q (as.foldlM f b) (as.foldlM g c) := by
  induction as generalizing b c m m' with
  | nil => exact steady_pure fun n n' hn hn' => lasting _ _ _ _ _ _ hn hn' start
  | cons a as ih =>
    rw [List.foldlM_cons, List.foldlM_cons]
    refine steady_bind (each a (by simp) (Std.Refl.refl _) (Std.Refl.refl _) start)
      fun b c n n' hn hn' here => ih (fun a' ha' _ _ _ _ hk hk' => ?_) here
    exact each a' (by simp [ha']) (IsTrans.trans _ _ _ hn hk) (IsTrans.trans _ _ _ hn' hk')

/-! ## Computations that retrace others

One of two computations may do less than the other, so that it succeeds where the other one does but
also elsewhere. -/

/-- Whether the second computation succeeds wherever the first one does, with a result that is
related, whatever became of two memories. -/
def Retraces (later : Memory → Memory → Prop) (m m' : Memory) (Q : α → Memory → β → Memory → Prop)
    (x : ExceptT Fault (StateM σ) α) (y : ExceptT Fault (StateM σ) β) : Prop :=
  ∀ t t' u a, later m (memory t) → later m' (memory t') → runOn x t = (.ok a, u) →
    later (memory t) (memory u) ∧ ∃ b u', runOn y t' = (.ok b, u') ∧ later (memory t') (memory u')
      ∧ Q a (memory u) b (memory u')

/-- Whether a computation that succeeds leaves behind what may become of a memory. -/
def Ages (later : Memory → Memory → Prop) (m : Memory) (x : ExceptT Fault (StateM σ) α) : Prop :=
  ∀ t u a, later m (memory t) → runOn x t = (.ok a, u) → later (memory t) (memory u)

theorem Steady.retraces {x : ExceptT Fault (StateM σ) α} {y : ExceptT Fault (StateM σ) β}
    (h : Steady later m m' Q x y) : Retraces later m m' Q x y := by
  intro t t' u a ht ht' hx
  cases hy : runOn y t' with
  | mk r u' =>
    obtain ⟨after, after', both⟩ := h.run ht ht' hx hy
    cases r with
    | error e => cases both
    | ok b => exact ⟨after, b, u', rfl, after', both⟩

theorem Retraces.onwards [IsTrans Memory later] {x : ExceptT Fault (StateM σ) α}
    {y : ExceptT Fault (StateM σ) β} (h : Retraces later m m' Q x y) {n n' : Memory}
    (hn : later m n) (hn' : later m' n') : Retraces later n n' Q x y :=
  fun t t' u a ht ht' => h t t' u a (IsTrans.trans _ _ _ hn ht) (IsTrans.trans _ _ _ hn' ht')

theorem Ages.onwards [IsTrans Memory later] {x : ExceptT Fault (StateM σ) α}
    (h : Ages later m x) {n : Memory} (hn : later m n) : Ages later n x :=
  fun t u a ht => h t u a (IsTrans.trans _ _ _ hn ht)

/-- What is steady beside something else leaves behind what may become of its memory. -/
theorem Steady.ages [IsPreorder Memory later] {x : ExceptT Fault (StateM σ) α}
    {y : ExceptT Fault (StateM σ) β} (h : Steady later m m' Q x y) (t' : σ)
    (ht' : later m' (memory t')) : Ages later m x := by
  intro t u a ht hx
  obtain ⟨after, -⟩ := h t t' ht ht'
  rwa [hx] at after

theorem retraces_bind [IsPreorder Memory later] {x : ExceptT Fault (StateM σ) α}
    {y : ExceptT Fault (StateM σ) β} {f : α → ExceptT Fault (StateM σ) α'}
    {g : β → ExceptT Fault (StateM σ) β'} (first : Retraces later m m' Q x y)
    (rest : ∀ a b n n', later m n → later m' n' → Q a n b n' →
      Retraces later n n' R (f a) (g b)) :
    Retraces later m m' R (x >>= f) (y >>= g) := by
  intro t t' u c ht ht' run
  obtain ⟨a, s, before, after⟩ := bind_eq_ok run
  obtain ⟨up, b, s', before', up', related⟩ := first t t' s a ht ht' before
  obtain ⟨on, d, u', after', on', both⟩ := rest a b _ _ (IsTrans.trans _ _ _ ht up)
    (IsTrans.trans _ _ _ ht' up') related s s' u c (Std.Refl.refl _) (Std.Refl.refl _) after
  refine ⟨IsTrans.trans _ _ _ up on, d, u', ?_, IsTrans.trans _ _ _ up' on', both⟩
  rw [runOn_bind_ok before', after']

/-- The elements of a list from an offset on, and not more of them than a limit says. -/
def window (offset : Nat) (limit : Option Nat) (xs : List α) : List α :=
  limit.elim (xs.drop offset) (xs.drop offset).take

@[simp] theorem window_nil (offset : Nat) (limit : Option Nat) :
    window offset limit ([] : List α) = [] := by
  cases limit <;> simp [window]

@[simp] theorem window_succ_cons (offset : Nat) (limit : Option Nat) (x : α) (xs : List α) :
    window (offset + 1) limit (x :: xs) = window offset limit xs := rfl

@[simp] theorem window_limit_zero (offset : Nat) (xs : List α) :
    window offset (some 0) xs = [] := by
  simp [window]

theorem window_cons {limit : Option Nat} (wanted : limit ≠ some 0) (x : α) (xs : List α) :
    window 0 limit (x :: xs) = x :: window 0 (limit.map (· - 1)) xs := by
  cases limit with
  | none => rfl
  | some n =>
    cases n with
    | zero => exact absurd rfl wanted
    | succ n => rfl

theorem forall₂_window {P : α → β → Prop} {xs : List α} {ys : List β} (h : List.Forall₂ P xs ys)
    (offset : Nat) (limit : Option Nat) :
    List.Forall₂ P (window offset limit xs) (window offset limit ys) := by
  cases limit with
  | none => exact List.forall₂_drop offset h
  | some n => exact List.forall₂_take n (List.forall₂_drop offset h)

/-- Going through a list, and through those elements alone that are wanted of it. -/
theorem retraces_mapM_window [IsPreorder Memory later] (lasting : Lasting later Q)
    {f : α' → ExceptT Fault (StateM σ) α} {g : β' → ExceptT Fault (StateM σ) β} {as : List α'}
    {bs : List β'} (keeps : ∀ a ∈ as, Ages later m (f a)) (offset : Nat) (limit : Option Nat)
    (pairs : List.Forall₂ (fun a b => Retraces later m m' Q (f a) (g b)) (window offset limit as)
      bs) :
    Retraces later m m' (fun us n vs n' =>
        List.Forall₂ (fun u v => Q u n v n') (window offset limit us) vs)
      (as.mapM f) (bs.mapM g) := by
  induction as generalizing m m' offset limit bs with
  | nil =>
    rw [window_nil] at pairs
    cases pairs
    rw [List.mapM_nil, List.mapM_nil]
    intro t t' u us ht ht' run
    cases run
    exact ⟨Std.Refl.refl _, [], t', rfl, Std.Refl.refl _, by simp⟩
  | cons a as ih =>
    -- An element that is not wanted is gone through by the first computation alone.
    have unwanted (o : Nat) (l : Option Nat)
        (pairs : List.Forall₂ (fun a b => Retraces later m m' Q (f a) (g b)) (window o l as) bs)
        (same : ∀ (c : α) cs, window offset limit (c :: cs) = window o l cs) :
        Retraces later m m' (fun us n vs n' =>
            List.Forall₂ (fun u v => Q u n v n') (window offset limit us) vs)
          ((a :: as).mapM f) (bs.mapM g) := by
      intro t t' u us ht ht' run
      rw [List.mapM_cons] at run
      obtain ⟨c, s, before, run⟩ := bind_eq_ok run
      obtain ⟨cs, s', between, last⟩ := bind_eq_ok run
      cases last
      have up := keeps a (by simp) t s c ht before
      have others : List.Forall₂ (fun a b => Retraces later (memory s) m' Q (f a) (g b))
          (window o l as) bs :=
        pairs.imp fun a b h => h.onwards (IsTrans.trans _ _ _ ht up) (Std.Refl.refl _)
      have next := ih
        (fun b hb => (keeps b (by simp [hb])).onwards (IsTrans.trans _ _ _ ht up)) o l others
      obtain ⟨on, vs, u', run', on', related⟩ :=
        next s t' u cs (Std.Refl.refl _) ht' between
      refine ⟨IsTrans.trans _ _ _ up on, vs, u', run', on', ?_⟩
      dsimp only
      rwa [same]
    cases offset with
    | succ offset => exact unwanted offset limit pairs fun _ _ => rfl
    | zero =>
      by_cases empty : limit = some 0
      · subst empty
        rw [window_limit_zero] at pairs
        exact unwanted 0 (some 0) (by rwa [window_limit_zero]) fun _ _ => by simp
      · rw [window_cons empty] at pairs
        cases pairs with
        | cons here others =>
          rw [List.mapM_cons, List.mapM_cons]
          refine retraces_bind here fun u v n n' hn hn' first => ?_
          have keeps' : ∀ b ∈ as, Ages later n (f b) :=
            fun b hb => (keeps b (by simp [hb])).onwards hn
          refine retraces_bind (ih keeps' 0 _ (others.imp fun a b h => h.onwards hn hn'))
            fun us vs k k' hk hk' rest => ?_
          intro t t' s cs ht ht' run
          cases run
          refine ⟨Std.Refl.refl _, v :: vs, t', rfl, Std.Refl.refl _, ?_⟩
          dsimp only
          rw [window_cons empty]
          refine .cons ?_ (rest.imp fun a b => ?_)
          · exact lasting _ _ _ _ _ _ (IsTrans.trans _ _ _ hk ht) (IsTrans.trans _ _ _ hk' ht')
              first
          · exact lasting _ _ _ _ _ _ ht ht'

end

end EntityGraph
