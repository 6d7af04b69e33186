import EntityGraph.Proofs.Eval.Upheld
import EntityGraph.Proofs.Eval.Congruence

/-!
# Evaluating without unbound parameters

An expression that is evaluated in a scope which binds what the expression leaves open never looks up
a parameter in vain. What it calls may: the value of a lambda that was evaluated earlier, in a scope
without something that the lambda leaves open, fails whenever it gets there. So what is shown is that
no parameter is found unbound except one that such a lambda lacks, and that evaluating keeps no
further lambda of this sort. The main statement is `free_parameters_suffice`.

The free parameters of an expression alone do not decide what it needs values for. They leave out
whatever a lambda of the expression declares, also if it is used elsewhere.
-/

namespace EntityGraph

/-- Whether a scope has a value for each of these parameters. -/
def Scope.Binds (s : Scope Value) (ps : List Param) : Prop := ∀ p ∈ ps, ∃ v, s.lookup? p = some v

/-- Whether a lambda is kept that leaves a parameter open and was evaluated without a value for it. -/
def Trail.Lacks (t : Trail) (p : Param) : Prop :=
  ∃ n c, (n, c) ∈ t.closures ∧ p ∈ (Expr.lambda c.params c.body).openParams
    ∧ c.scope.lookup? p = none

/-- Whether a computation finds no parameter unbound and keeps no lambda that lacks one, except for
parameters that a lambda lacks which was kept before. -/
def NeverUnbound {α : Type} (x : Making α) : Prop :=
  ∀ t p, ((runOn x t).1 = .error (.unbound p) → t.Lacks p) ∧ ((runOn x t).2.Lacks p → t.Lacks p)

/-- All values, with faults that find parameters of a sort unbound only. -/
def Realm.unbound (sort : Param → Prop) : Realm :=
  .everything (fun e => ∀ p, e = .unbound p → sort p) fun _ bound p same => absurd same (bound p)

/-- That the parameters which are lacking, or found unbound, are of a sort is upheld. -/
theorem upheld_lacks (w : World) (sort : Param → Prop) :
    Upheld w (.unbound sort) fun t => ∀ p, t.Lacks p → sort p where
  closed := Realm.closed_everything
  covers _ _ := Realm.covers_everything _
  number _ h := h
  put _ _ _ h _ _ := h
  keep t n c fits h p lacks := by
    obtain ⟨m, d, kept, hp, missing⟩ := lacks
    rcases List.mem_cons.1 kept with same | earlier
    · cases same
      have looked : c.scope.lookup p = .error (.unbound p) := by rw [Scope.lookup, missing]
      exact fits.scope.calm p hp _ looked p rfl
    · exact h p ⟨m, d, earlier, hp, missing⟩
  kept t n c h found := by
    refine ⟨⟨fun p hp e fails q same => ?_, fun _ _ _ => trivial⟩, fun _ _ => trivial⟩
    obtain ⟨before, later, split, -⟩ := List.lookup_eq_some_iff.1 found
    unfold Scope.lookup at fails
    split at fails
    · cases fails
    · next missing =>
      cases fails
      cases same
      exact h p ⟨n, c, by simp [split], hp, missing⟩

/-- What upholds this for every sort of parameters never finds one unbound. -/
theorem neverUnbound_of_upheld {α : Type} {P : α → Prop} {x : Making α}
    (h : ∀ sort : Param → Prop,
      (Realm.unbound sort).Yields (fun t => ∀ p, t.Lacks p → sort p) P x) : NeverUnbound x := by
  intro t p
  obtain ⟨fails, after, -⟩ := h t.Lacks t fun _ lacks => lacks
  exact ⟨fun unbound => fails _ unbound p rfl, after p⟩

theorem Scope.Binds.fits {sort : Param → Prop} {s : Scope Value} {ps : List Param}
    (h : s.Binds ps) : s.Fits (.unbound sort) ps := by
  refine ⟨fun p hp => ?_, fun _ _ _ => trivial⟩
  obtain ⟨v, found⟩ := h p hp
  rw [lookup, found]
  exact calm_ok v

/-- Evaluating in a scope that binds what the expression leaves open finds no parameter unbound. -/
theorem neverUnbound_eval (w : World) {e : Expr Value} {s : Scope Value}
    (binds : s.Binds e.openParams) : NeverUnbound (e.eval w.host s) :=
  neverUnbound_of_upheld fun sort =>
    (upheld_lacks w sort).eval (upheld_lacks w sort).call e binds.fits fun _ _ => trivial

/-- What leaves nothing open is applied from the empty scope and finds no parameter unbound. -/
theorem neverUnbound_applyLambda (w : World) {e : Expr Value} (closed : e.openParams = [])
    (args : List Value) : NeverUnbound (e.applyLambda w.host args) := by
  refine neverUnbound_of_upheld fun sort =>
    (upheld_lacks w sort).applyTo (upheld_lacks w sort).call e (fun _ _ => trivial)
      (Scope.Binds.fits ?_) fun _ _ => trivial
  rw [closed]
  exact nofun

/-- The free parameters of an expression, with those that it uses outside the lambdas that declare
them, are all that its evaluation needs values for. An expression that has no parameters of either
kind needs no scope at all, and can be applied if it is a lambda. -/
theorem free_parameters_suffice (w : World) {e : Expr Value} {s : Scope Value}
    (free : s.Binds e.freeParams) (strays : s.Binds e.strayParams) :
    NeverUnbound (e.eval w.host s)
      ∧ (e.freeParams = [] → e.strayParams = [] → ∀ args,
          NeverUnbound (e.applyLambda w.host args)) := by
  refine ⟨neverUnbound_eval w fun q hq => ?_, fun noneFree noneStray =>
    neverUnbound_applyLambda w ?_⟩
  · exact (Expr.free_or_stray hq).elim (free q) (strays q)
  · refine List.eq_nil_iff_forall_not_mem.2 fun q hq => ?_
    exact (Expr.free_or_stray hq).elim (by simp [noneFree]) (by simp [noneStray])

namespace Expr

theorem adding_bound :
    NeverUnbound (adding.eval (default : World).host (.bind .y (.int 2) .empty)) := by
  have free : adding.freeParams = [.y] := by decide
  have strays : adding.strayParams = [] := by decide
  refine (free_parameters_suffice default (fun p hp => ?_) fun p hp => ?_).1
  · obtain rfl : p = .y := by simpa [free] using hp
    exact ⟨.int 2, rfl⟩
  · simp [strays] at hp

/-- What compares the argument of a lambda with the lambda's parameter, outside of it. -/
def straying : Expr Value := binary .eq (invoke (lambda [.x] (param .x)) [lit (.int 1)]) (param .x)

/-- What calls a parameter. -/
def handing : Expr Value := func (param .y) [lit (.int 1)]

/-- A parameter that strays is looked up in vain though it is not free. And so is one that a lambda
leaves open if the lambda was evaluated where the parameter has no value, and is called now. -/
theorem straying_unbound :
    (straying.freeParams = []
        ∧ (runOn (straying.eval (default : World).host .empty) ⟨0, [], []⟩).1
          = .error (.unbound .x))
      ∧ handing.freeParams = [.y]
        ∧ (runOn (handing.eval (default : World).host (.bind .y (.closure 1) .empty))
            ⟨1, [], [(1, ⟨[.x], param .z, .empty⟩)]⟩).1 = .error (.unbound .z) :=
  ⟨⟨by decide, rfl⟩, by decide, rfl⟩

end Expr

end EntityGraph

/-!
## Which bindings matter

What an expression gives depends on the values of the parameters that it leaves open, and on nothing
else in its scope. Scopes are chains that grow wherever a lambda is applied, so two scopes may hold
these values at different depths, and anything besides them. A binding that an expression has no use
for, or that a later one hides, may therefore be left out, and bindings of different parameters may
change places, however far out in the scope they stand.

The values of lambdas keep their scope and so give it away. This is about expressions whose lambdas
are only applied. The main statement is `open_parameters_decide`.
-/

namespace EntityGraph

variable {α β : Type}

/-! ## Computations with one outcome -/

/-- Whether two computations come to one outcome, be it a value or a fault, having made and assigned
the same. If they succeed, they also keep the same lambdas. -/
def Coincide (x y : Making α) : Prop :=
  ∀ t, (runOn x t).1 = (runOn y t).1
    ∧ (runOn x t).2.supply = (runOn y t).2.supply
    ∧ (runOn x t).2.memory = (runOn y t).2.memory
    ∧ ∀ a, (runOn x t).1 = .ok a → (runOn x t).2 = (runOn y t).2

theorem coincide_refl (x : Making α) : Coincide x x :=
  fun _ => ⟨rfl, rfl, rfl, fun _ _ => rfl⟩

theorem coincide_bind {x y : Making α} {f g : α → Making β} (first : Coincide x y)
    (rest : ∀ a, Coincide (f a) (g a)) : Coincide (x >>= f) (y >>= g) := by
  intro t
  have both := first t
  rw [runOn_bind, runOn_bind]
  cases hx : runOn x t with
  | mk r u =>
    cases hy : runOn y t with
    | mk r' u' =>
      rw [hx, hy] at both
      obtain ⟨same, supply, memory, after⟩ := both
      dsimp only at same supply memory after
      subst same
      cases r with
      | error e => exact ⟨rfl, supply, memory, nofun⟩
      | ok a =>
        obtain rfl := after a rfl
        exact rest a u

/-- Evaluating one expression in two scopes keeps coincidence. A lambda that stands for a count is
kept with its scope, but then it is refused. -/
theorem congruence_coincide (h : Host) : Congruence h (fun _ => none) Coincide where
  outcome _ := coincide_refl _
  shown f e _ := by
    rw [Expr.substitute_none]
    exact coincide_refl _
  bind := coincide_bind
  now := coincide_refl _
  own _ := coincide_refl _
  call _ _ := coincide_refl _
  count _ _ _ _ _ := ⟨rfl, rfl, rfl, nofun⟩

/-- An expression has one outcome in all scopes that agree on what it leaves open. -/
theorem coincide_eval (h : Host) {e : Expr Value} (formed : e.isWellFormed)
    (applied : e.isFirstOrder false) {s s' : Scope Value} (agree : Scope.Agree e.openParams s s') :
    Coincide (e.eval h s) (e.eval h s') := by
  have fits : Replaces h Coincide (fun _ => none) e.openParams s s' :=
    fun p hp => ⟨fun _ => agree p hp, nofun⟩
  have both := (congruence_coincide h).eval e formed (.inr applied)
    (fun _ _ _ _ _ _ => nofun) fits
  rwa [Expr.substitute_none] at both

/-! ## Changing a scope far out -/

namespace Scope

variable {s s' : Scope Value} {ps : List Param} {vs : List Value}

/-- Scopes that agree on a parameter still do after the same bindings were added to both. -/
theorem lookup?_bindList_congr {p : Param} (same : s.lookup? p = s'.lookup? p)
    (len : ps.length = vs.length) :
    (s.bindList ps vs).lookup? p = (s'.bindList ps vs).lookup? p := by
  by_cases bound : p ∈ ps
  · exact lookup?_bindList_of_mem bound s s' len
  · rw [lookup?_bindList_of_notMem bound, lookup?_bindList_of_notMem bound, same]

/-- A binding of a parameter that is not looked up, or that is bound again, may be left out. -/
theorem agree_bind_bindList {p : Param} {qs : List Param} (v : Value) (unused : p ∉ qs ∨ p ∈ ps)
    (len : ps.length = vs.length) :
    Agree qs ((s.bind p v).bindList ps vs) (s.bindList ps vs) := by
  intro q hq
  by_cases same : q = p
  · subst same
    exact lookup?_bindList_of_mem (unused.resolve_left (not_not_intro hq)) _ _ len
  · exact lookup?_bindList_congr (by simp [lookup?, same]) len

/-- Bindings of different parameters may change places. -/
theorem agree_bind_swap {p q : Param} {qs : List Param} (u v : Value) (other : p ≠ q)
    (len : ps.length = vs.length) :
    Agree qs (((s.bind p u).bind q v).bindList ps vs) (((s.bind q v).bind p u).bindList ps vs) := by
  refine fun x _ => lookup?_bindList_congr ?_ len
  by_cases first : x = p
  · subst first
    simp [lookup?, other]
  · simp [lookup?, first]

end Scope

/-! ## What evaluation depends on -/

/-- The outcome of evaluating an expression whose lambdas are only applied depends on the values of
the parameters that it leaves open alone: scopes that agree on these, where a parameter may be
unbound in both, give one value or one fault. So it makes no difference whether a scope has a binding
that the expression does not use, or one that is hidden, nor which of two bindings comes first. -/
theorem open_parameters_decide (h : Host) {e : Expr Value} (formed : e.isWellFormed)
    (applied : e.isFirstOrder false) :
    (∀ s s', Scope.Agree e.openParams s s' → Coincide (e.eval h s) (e.eval h s'))
      ∧ ∀ (s : Scope Value) (ps : List Param) (vs : List Value), ps.length = vs.length →
        (∀ p v, p ∉ e.openParams ∨ p ∈ ps →
          Coincide (e.eval h ((s.bind p v).bindList ps vs)) (e.eval h (s.bindList ps vs)))
        ∧ ∀ p q u v, p ≠ q →
          Coincide (e.eval h (((s.bind p u).bind q v).bindList ps vs))
            (e.eval h (((s.bind q v).bind p u).bindList ps vs)) := by
  have decided : ∀ s s', Scope.Agree e.openParams s s' → Coincide (e.eval h s) (e.eval h s') :=
    fun s s' agree => coincide_eval h formed applied agree
  refine ⟨decided, fun s ps vs len => ⟨fun p v unused => ?_, fun p q u v other => ?_⟩⟩
  · exact decided _ _ (Scope.agree_bind_bindList v unused len)
  · exact decided _ _ (Scope.agree_bind_swap u v other len)

namespace Expr

/-- A lambda hides its own parameter, whatever the scope has for it. -/
theorem adding_decided :
    (∀ s s' : Scope Value, s.lookup? .y = some (.int 2) → s'.lookup? .y = some (.int 2) →
        Coincide (adding.eval (default : World).host s) (adding.eval (default : World).host s'))
      ∧ (runOn (adding.eval (default : World).host (.bind .y (.int 2) .empty)) ⟨0, [], []⟩).1
        = .ok (.int 3) := by
  refine ⟨fun s s' bound bound' => ?_, rfl⟩
  refine (open_parameters_decide (default : World).host (by decide) (by decide)).1 s s' ?_
  intro p hp
  obtain rfl : p = .y := by
    have leaves : adding.openParams = [.y] := by decide
    simpa [leaves] using hp
  rw [bound, bound']

end Expr

end EntityGraph
