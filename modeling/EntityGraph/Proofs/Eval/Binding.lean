import EntityGraph.Proofs.Eval.Congruence
import EntityGraph.Proofs.Eval.Upheld

/-!
# Replacing a parameter and binding it

An expression with a parameter replaced evaluates in a scope as the expression itself does where the
parameter is bound to the value of the replacement. This takes two things. The replacement has to
have that value whenever it is evaluated, which may be never, once or for each element of a sequence.
And no lambda of the expression may come between: one that declares the parameter would hide the
value it is bound to, but does not keep its uses from being replaced, and one that declares what the
replacement leaves open would catch it.

The main statement is `replaced_agrees_with_bound`. That a replacement has its value in every scope
that binds what it leaves open, also far inside the expression, is a theorem of its own,
`eval_of_agree`.
-/

set_option linter.unusedSectionVars false

namespace EntityGraph

variable {α β : Type}

/-! ## Computations that agree -/

/-- Whether two computations agree where a property of trails holds: they give the same value, or
faults of one kind, and leave the same objects behind. If they succeed they leave the same trail
behind, and it has the property again. -/
def Agree (P : Trail → Prop) (x y : Making α) : Prop :=
  ∀ t, P t → told (runOn x t).1 = told (runOn y t).1
    ∧ (runOn x t).2.memory = (runOn y t).2.memory
    ∧ ∀ a, (runOn x t).1 = .ok a → (runOn x t).2 = (runOn y t).2 ∧ P (runOn x t).2

/-- Whether a property of trails lasts while a host makes things and calls. -/
structure Host.Lasts (h : Host) (P : Trail → Prop) : Prop where
  number : ∀ t, P t → P { t with supply := t.supply + 1 }
  call : ∀ f vs t, P t → P (runOn (h.call f vs) t).2

section

variable {P : Trail → Prop}

/-- What maintains the property agrees with itself. -/
theorem agree_refl {x : Making α} (h : Maintains P (fun _ => True) x) : Agree P x x :=
  fun t ht => ⟨rfl, rfl, fun _ _ => ⟨rfl, (h t ht).2⟩⟩

theorem agree_bind {x y : Making α} {f g : α → Making β} (first : Agree P x y)
    (rest : ∀ a, Agree P (f a) (g a)) : Agree P (x >>= f) (y >>= g) := by
  intro t ht
  have both := first t ht
  rw [runOn_bind, runOn_bind]
  cases hx : runOn x t with
  | mk r u =>
    cases hy : runOn y t with
    | mk r' u' =>
      rw [hx, hy] at both
      obtain ⟨same, memory, after⟩ := both
      obtain ⟨f, g, rfl, rfl, kinds⟩ | ⟨a, rfl, rfl⟩ := told_eq_iff.1 same
      · exact ⟨congrArg Except.error kinds, memory, nofun⟩
      · obtain ⟨trails, hu⟩ := after a rfl
        cases trails
        exact rest a u hu

/-- Evaluating keeps agreement. Two lambdas are refused as a count alike, though what is kept for
them differs. -/
theorem congruence_agree {h : Host} {r : Param → Option (Expr Value)} (lasts : h.Lasts P) :
    Congruence h r (Agree P) where
  outcome x t ht := by
    rw [runOn_outcome]
    exact ⟨rfl, rfl, fun _ _ => ⟨rfl, ht⟩⟩
  shown f e same t ht := ⟨congrArg Except.error (same _ _), rfl, nofun⟩
  bind := agree_bind
  now := agree_refl (maintains_now h.world)
  own x := agree_refl (Value.maintains_own lasts.number fun _ _ => trivial)
  call f vs := agree_refl fun t ht => ⟨fun _ _ => trivial, lasts.call f vs t ht⟩
  count op vs c c' t ht := ⟨rfl, rfl, nofun⟩

end

/-! ## Evaluating in another scope -/

/-- Whether a computation gives what another one gives wherever that one uses up no number. Numbers
are never given back, so none of the parts of a computation that used up none did. -/
structure Echoes (x y : Making α) : Prop where
  grows : ∀ t, t.supply ≤ (runOn x t).2.supply
  same : ∀ t a u, runOn x t = (.ok a, u) → u.supply = t.supply → runOn y t = (.ok a, u)

theorem echoes_refl {x : Making α} (grows : ∀ t, t.supply ≤ (runOn x t).2.supply) : Echoes x x :=
  ⟨grows, fun _ _ _ run _ => run⟩

theorem echoes_bind {x y : Making α} {f g : α → Making β} (first : Echoes x y)
    (rest : ∀ a, Echoes (f a) (g a)) : Echoes (x >>= f) (y >>= g) where
  grows t := by
    have here := first.grows t
    rw [runOn_bind]
    split
    · next a u run =>
      rw [run] at here
      exact Nat.le_trans here ((rest a).grows u)
    · next e u run =>
      rw [run] at here
      exact here
  same t b u run unused := by
    obtain ⟨a, m, before, after⟩ := bind_eq_ok run
    have up : t.supply ≤ m.supply := by simpa [before] using first.grows t
    have on : m.supply ≤ u.supply := by simpa [after] using (rest a).grows m
    rw [runOn_bind_ok (first.same t a m before (by omega))]
    exact (rest a).same m b u after (by omega)

/-- The value of a lambda uses up a number, so it echoes everything. -/
theorem echoes_newClosure (c c' : Closure) :
    Echoes (Making.newClosure c) (Making.newClosure c') where
  grows t := Nat.le_succ t.supply
  same t a u run unused := by
    cases run
    exact absurd unused (Nat.succ_ne_self t.supply)

theorem congruence_echoes {h : Host} {r : Param → Option (Expr Value)}
    (grows : ∀ f vs t, t.supply ≤ (runOn (h.call f vs) t).2.supply) : Congruence h r Echoes where
  outcome x := echoes_refl fun t => by simp only [runOn_outcome, Nat.le_refl]
  shown f e _ := ⟨fun _ => Nat.le_refl _, nofun⟩
  bind := echoes_bind
  now := echoes_refl fun _ => Nat.le_refl _
  own x := by
    refine echoes_refl fun t => ?_
    exact (Value.maintains_own (I := fun u => t.supply ≤ u.supply) (E := fun _ => True)
      (fun u (h : _ ≤ u.supply) => Nat.le_succ_of_le h) (fun _ _ => trivial) t (Nat.le_refl _)).2
  call f vs := echoes_refl (grows f vs)
  count op vs c c' := ⟨fun t => Nat.le_succ t.supply, nofun⟩

/-- An expression that uses up no number has one value in all scopes that agree on the parameters
which it leaves open. -/
theorem eval_of_agree {h : Host} (grows : ∀ f vs t, t.supply ≤ (runOn (h.call f vs) t).2.supply)
    {e : Expr Value} (formed : e.isWellFormed) {s s' : Scope Value}
    (agree : Scope.Agree e.openParams s s') {t : Trail} {v : Value}
    (value : runOn (e.eval h s) t = (.ok v, t)) : runOn (e.eval h s') t = (.ok v, t) := by
  have fits : Replaces h Echoes (fun _ => none) e.openParams s s' :=
    fun p hp => ⟨fun _ => agree p hp, nofun⟩
  have echoes := (congruence_echoes grows).eval e formed (.inl echoes_newClosure)
    (r := fun _ => none) (fun _ _ _ _ _ _ => nofun) fits
  rw [Expr.substitute_none] at echoes
  exact echoes.same t v t value rfl

/-! ## Replacing and binding -/

/-- Replacing a parameter agrees with binding it, in a host under which a property of trails lasts
that lets the replacement have its value whenever it is evaluated. -/
theorem replaced_agrees_with_bound {h : Host} {P : Trail → Prop} (lasts : h.Lasts P)
    (grows : ∀ f vs t, t.supply ≤ (runOn (h.call f vs) t).2.supply)
    {e : Expr Value} (formed : e.isWellFormed) (applied : e.isFirstOrder false)
    {p : Param} {r : Expr Value} (formed' : r.isWellFormed)
    (uncaught : Expr.Uncaught (Expr.single p r) e.nodes) {s : Scope Value} {v : Value}
    (value : ∀ t, P t → runOn (r.eval h s) t = (.ok v, t)) :
    ∃ e', e.replaceParams (Expr.single p r) = .ok e'
      ∧ Agree P (e'.eval h s) (e.eval h (s.bind p v)) := by
  refine ⟨_, Expr.replaceParams_eq_substitute _ formed, ?_⟩
  refine (congruence_agree lasts).eval e formed (.inr applied) uncaught fun q _ => ?_
  by_cases same : q = p
  · subst same
    refine ⟨fun stays => by simp [Expr.single] at stays, fun r' hr u hu => ?_⟩
    obtain rfl : r = r' := by simpa [Expr.single] using hr
    have bound : (Expr.param q).eval h (s.bind q v) = pure v := by
      simp [Expr.eval, Scope.lookup, Scope.lookup?]
      rfl
    intro t ht
    have here := eval_of_agree grows formed' (fun x hx => (hu x hx).symm) (value t ht)
    rw [bound, here]
    exact ⟨rfl, rfl, fun _ _ => ⟨rfl, ht⟩⟩
  · refine ⟨fun _ => by simp [Scope.lookup?, same], fun r' hr => ?_⟩
    simp [Expr.single, same] at hr

/-- No call gives a number back. -/
theorem World.supply_grows (w : World) (f : Value) (vs : List Value) (t : Trail) :
    t.supply ≤ (runOn (w.host.call f vs) t).2.supply := by
  have up : Upheld w (.everything (fun _ => True) fun _ _ => trivial) (t.supply ≤ ·.supply) :=
    { closed := Realm.closed_everything
      covers := fun _ _ => Realm.covers_everything _
      number := fun _ h => Nat.le_succ_of_le h
      put := fun _ _ _ h _ _ => h
      keep := fun _ _ _ _ h => h
      kept := fun _ _ _ _ _ =>
        ⟨⟨fun _ _ _ _ => trivial, fun _ _ _ => trivial⟩, fun _ _ => trivial⟩ }
  exact (up.call f vs trivial (fun _ _ => trivial) t (Nat.le_refl _)).2.1

namespace Expr

/-- With a literal in its place, the parameter may as well be bound to the literal. -/
theorem adding_agrees :
    ∃ e', adding.replaceParams (single .y (lit (.int 2))) = .ok e'
      ∧ Agree (fun _ => True) (e'.eval (default : World).host .empty)
          (adding.eval (default : World).host (.bind .y (.int 2) .empty)) := by
  refine replaced_agrees_with_bound ⟨fun _ _ => trivial, fun _ _ _ _ => trivial⟩
    (World.supply_grows default) (by decide) (by decide) (by decide) ?_ fun t _ => rfl
  intro ps b hb p hp e he
  obtain ⟨rfl, rfl⟩ : p = .y ∧ e = lit (.int 2) := by
    simp only [single] at he
    split at he <;> simp_all
  obtain ⟨rfl, -⟩ : ps = [.x] ∧ _ := by simpa [adding, nodes, nodesList] using hb
  exact ⟨by decide, nofun⟩

/-- What applies a lambda that gives a parameter. -/
def giving (declared used : Param) : Expr Value :=
  invoke (lambda [declared] (param used)) [lit (.int 1)]

/-- A function of its own, whenever it is evaluated. -/
def renewed : Expr Value := lambda [.y] (param .y)

/-- What compares a parameter with itself. -/
def reflexive : Expr Value := binary .eq (param .x) (param .x)

/-- What an expression gives in a scope, where one lambda was evaluated before. -/
def given (e : Expr Value) (s : Scope Value) : Outcome Value :=
  (runOn (e.eval (default : World).host s) ⟨1, [], [(1, ⟨[.y], param .y, .empty⟩)]⟩).1

/-- Replacing and binding differ where a lambda declares the parameter, where it declares what the
replacement leaves open, and where each evaluation of the replacement makes something new. -/
theorem replaced_otherwise :
    (∃ e, (giving .x .x).replaceParams (single .x (lit (.int 2))) = .ok e
        ∧ e.given .empty = .ok (.int 2)
        ∧ (giving .x .x).given (.bind .x (.int 2) .empty) = .ok (.int 1))
      ∧ (∃ e, (giving .y .x).replaceParams (single .x (param .y)) = .ok e
        ∧ e.given (.bind .y (.int 2) .empty) = .ok (.int 1)
        ∧ (giving .y .x).given (.bind .x (.int 2) (.bind .y (.int 2) .empty)) = .ok (.int 2))
      ∧ ∃ e, reflexive.replaceParams (single .x renewed) = .ok e
        ∧ e.given .empty = .ok (.bool false)
        ∧ reflexive.given (.bind .x (.closure 1) .empty) = .ok (.bool true) :=
  ⟨⟨_, rfl, rfl, rfl⟩, ⟨_, rfl, rfl, rfl⟩, _, rfl, rfl, rfl⟩

end Expr

end EntityGraph
