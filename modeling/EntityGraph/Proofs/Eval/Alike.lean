import EntityGraph.Proofs.Run
import EntityGraph.Proofs.Expr.Renaming
import EntityGraph.Expr.Build
import EntityGraph.Scalar.Translate
import EntityGraph.Value.Assignment
import EntityGraph.Value.Construct
import Mathlib.Data.List.Forall2

/-!
# Computations that come out alike

Two expressions that differ in the names of their parameters cannot be told apart by what they give,
but what they leave behind differs: the values of their lambdas keep the one body or the other, and
their faults show it. So two trails are alike here if they differ at most in lambdas one of which is
a renaming of the other, and two computations are alike if from trails that are alike they give the
same value, or faults of one kind, and leave behind trails that are alike again.

Nearly all computations never look into what the values of lambdas keep. They are alike to
themselves, which is shown for them one by one.
-/

namespace EntityGraph

/-! ## What makes trails and computations alike -/

/-- Whether the nodes of an expression mean the same in one scope as their renamings in another: every
parameter has the value of its renaming, and no lambda catches a renamed parameter, or loses one of
its own. -/
structure Renames (ρ : Param → Param) (nodes : List (Expr Value)) (s s' : Scope Value) : Prop where
  values : ∀ p, Expr.param p ∈ nodes → s'.lookup? (ρ p) = s.lookup? p
  own : ∀ ps b, Expr.lambda ps b ∈ nodes → ∀ p, Expr.param p ∈ b.nodes → p ∈ ps → ρ p = p
  uncaught : ∀ ps b, Expr.lambda ps b ∈ nodes → ∀ p, Expr.param p ∈ b.nodes → p ∉ ps → ρ p ∉ ps

theorem Renames.mono {ρ : Param → Param} {ns ns' : List (Expr Value)} {s s' : Scope Value}
    (h : Renames ρ ns s s') (sub : ns' ⊆ ns) : Renames ρ ns' s s' where
  values p hp := h.values p (sub hp)
  own ps b hb := h.own ps b (sub hb)
  uncaught ps b hb := h.uncaught ps b (sub hb)

theorem renames_id (ns : List (Expr Value)) (s : Scope Value) : Renames id ns s s where
  values _ _ := rfl
  own _ _ _ _ _ _ := rfl
  uncaught _ _ _ _ _ h := h

/-- The value of one lambda, and that of its renaming. -/
def Closure.Alike (c c' : Closure) : Prop :=
  ∃ ρ, c'.params = c.params ∧ c'.body = c.body.rename ρ
    ∧ Renames ρ (Expr.lambda c.params c.body).nodes c.scope c'.scope

theorem Closure.alike_refl (c : Closure) : c.Alike c :=
  ⟨id, rfl, (Expr.rename_id _).symm, renames_id _ _⟩

/-- Trails that differ at most in the names of the parameters of lambdas. -/
structure Trail.Alike (t t' : Trail) : Prop where
  supply : t.supply = t'.supply
  memory : t.memory = t'.memory
  closures : List.Forall₂ (fun c c' => c.1 = c'.1 ∧ c.2.Alike c'.2) t.closures t'.closures

theorem Trail.alike_refl (t : Trail) : t.Alike t :=
  ⟨rfl, rfl, List.forall₂_same.2 fun c _ => ⟨rfl, c.2.alike_refl⟩⟩

/-- What is kept under a number in the one trail and in the other. -/
theorem Trail.Alike.lookup {t t' : Trail} (h : t.Alike t') (n : Nat) :
    (t.closures.lookup n = none ∧ t'.closures.lookup n = none)
      ∨ ∃ c c', t.closures.lookup n = some c ∧ t'.closures.lookup n = some c' ∧ c.Alike c' := by
  have all := h.closures
  generalize t.closures = cs at all ⊢
  generalize t'.closures = cs' at all ⊢
  induction all with
  | nil => exact .inl ⟨rfl, rfl⟩
  | @cons c c' cs cs' first rest ih =>
    obtain ⟨k, c⟩ := c
    obtain ⟨k', c'⟩ := c'
    obtain ⟨rfl, alike⟩ := first
    simp only [List.lookup_cons]
    cases n == k with
    | true => exact .inr ⟨c, c', rfl, rfl, alike⟩
    | false => exact ih

/-- What a caller can tell of an outcome: the value, or the kind of the fault. -/
def told {α : Type} (x : Outcome α) : Except FaultKind α := x.mapError Fault.kind

@[simp] theorem told_ok {α : Type} (a : α) : told (.ok a : Outcome α) = .ok a := rfl

@[simp] theorem told_error {α : Type} (f : Fault) :
    told (.error f : Outcome α) = .error f.kind := rfl

theorem told_eq_iff {α : Type} {x y : Outcome α} :
    told x = told y ↔ (∃ f g, x = .error f ∧ y = .error g ∧ f.kind = g.kind)
      ∨ ∃ a, x = .ok a ∧ y = .ok a := by
  cases x <;> cases y <;> simp [eq_comm]

/-- A value that is told was given. -/
theorem exists_runOn_of_told {α σ : Type} {x : ExceptT Fault (StateM σ) α} {t : σ} {a : α}
    (h : told (runOn x t).1 = .ok a) : ∃ u, runOn x t = (.ok a, u) := by
  obtain ⟨_, _, _, impossible, _⟩ | ⟨b, given, same⟩ := told_eq_iff.1 (h.trans (told_ok a).symm)
  · cases impossible
  · cases same
    exact ⟨_, Prod.ext given rfl⟩

section

variable {α β : Type}

/-- Whether two computations cannot be told apart by what they give, from trails that are alike. -/
def Alike (x y : Making α) : Prop :=
  ∀ t t' : Trail, t.Alike t' →
    told (runOn x t).1 = told (runOn y t').1 ∧ (runOn x t).2.Alike (runOn y t').2

theorem alike_pure (a : α) : Alike (pure a : Making α) (pure a) :=
  fun _ _ h => ⟨rfl, h⟩

theorem alike_throw {f g : Fault} (h : f.kind = g.kind) :
    Alike (throw f : Making α) (throw g) :=
  fun _ _ ht => ⟨congrArg Except.error h, ht⟩

theorem alike_outcome {x y : Outcome α} (h : told x = told y) :
    Alike (liftM x : Making α) (liftM y) := by
  intro t t' ht
  rw [runOn_outcome, runOn_outcome]
  exact ⟨h, ht⟩

theorem alike_bind {x y : Making α} {f g : α → Making β} (first : Alike x y)
    (rest : ∀ a, Alike (f a) (g a)) : Alike (x >>= f) (y >>= g) := by
  intro t t' ht
  have both := first t t' ht
  rw [runOn_bind, runOn_bind]
  cases hx : runOn x t with
  | mk r u =>
    cases hy : runOn y t' with
    | mk r' u' =>
      rw [hx, hy] at both
      obtain ⟨same, after⟩ := both
      obtain ⟨f, g, rfl, rfl, kinds⟩ | ⟨a, rfl, rfl⟩ := told_eq_iff.1 same
      · exact ⟨congrArg Except.error kinds, after⟩
      · exact rest a u u' after

theorem alike_ite {c : Prop} [Decidable c] {x y x' y' : Making α} (yes : c → Alike x x')
    (no : ¬c → Alike y y') : Alike (if c then x else y) (if c then x' else y') := by
  split
  · next h => exact yes h
  · next h => exact no h

/-- What is refused in some cases, and goes on in the others. -/
theorem alike_guard {c : Prop} [Decidable c] {f : Fault} {x y : PUnit → Making α}
    (h : Alike (x ⟨⟩) (y ⟨⟩)) :
    Alike (if c then throw f >>= x else x ⟨⟩) (if c then throw f >>= y else y ⟨⟩) :=
  alike_ite (fun _ => alike_throw rfl) fun _ => h

theorem alike_mapM {f g : α → Making β} (as : List α) (h : ∀ a ∈ as, Alike (f a) (g a)) :
    Alike (as.mapM f) (as.mapM g) := by
  induction as with
  | nil =>
    rw [List.mapM_nil, List.mapM_nil]
    exact alike_pure _
  | cons a as ih =>
    rw [List.mapM_cons, List.mapM_cons]
    refine alike_bind (h a (by simp)) fun b => ?_
    refine alike_bind (ih fun c hc => h c (by simp [hc])) fun bs => ?_
    exact alike_pure _

end

/-! ## What does not look into the values of lambdas -/

theorem alike_newNumber : Alike Making.newNumber Making.newNumber := by
  intro t t' h
  refine ⟨?_, congrArg (· + 1) h.supply, h.memory, h.closures⟩
  show (Except.ok (t.supply + 1) : Except FaultKind Nat) = .ok (t'.supply + 1)
  rw [h.supply]

theorem alike_now (w : World) : Alike (Making.now w) (Making.now w) := by
  intro t t' h
  refine ⟨?_, h⟩
  show (Except.ok (w.after t) : Except FaultKind World) = .ok (w.after t')
  rw [World.after, World.after, h.memory]

theorem alike_put (r : Ref) (o : ObjectDecl) : Alike (Making.put r o) (Making.put r o) := by
  intro t t' h
  refine ⟨rfl, h.supply, ?_, h.closures⟩
  show t.memory.insert r o = t'.memory.insert r o
  rw [h.memory]

theorem alike_newObject (type : HostType) (attributes : List (String × Value)) :
    Alike (Making.newObject type attributes) (Making.newObject type attributes) := by
  refine alike_bind alike_newNumber fun n => ?_
  exact alike_bind (alike_put _ _) fun _ => alike_pure _

theorem alike_newParam (name : String) : Alike (newParam name) (newParam name) :=
  alike_bind alike_newNumber fun _ => alike_pure _

/-- The values of lambdas that are alike are one value, and what is kept for it is alike. -/
theorem alike_newClosure {c c' : Closure} (h : c.Alike c') :
    Alike (Making.newClosure c) (Making.newClosure c') := by
  refine alike_bind alike_newNumber fun n => ?_
  refine alike_bind (fun t t' ht => ?_) fun _ => alike_pure _
  exact ⟨rfl, ht.supply, ht.memory, .cons ⟨rfl, h⟩ ht.closures⟩

namespace Value

theorem alike_owned (v : Value) : Alike v.owned v.owned :=
  alike_ite (fun _ => alike_bind alike_newNumber fun _ => alike_pure _) fun _ => alike_pure _

mutual

theorem alike_settled (v : Value) : Alike v.settled v.settled := by
  cases v with
  | list vs => exact alike_bind (alike_settledList vs) fun _ => alike_pure _
  | tuple vs => exact alike_bind (alike_settledList vs) fun _ => alike_pure _
  | dict es => exact alike_bind (alike_settledEntries es) fun _ => alike_pure _
  | orderedDict es m => exact alike_bind (alike_settledEntries es) fun _ => alike_owned _
  | _ => exact alike_owned _

theorem alike_settledList (vs : List Value) : Alike (settledList vs) (settledList vs) := by
  cases vs with
  | nil => exact alike_pure _
  | cons v vs =>
    refine alike_bind (alike_settled v) fun u => ?_
    exact alike_bind (alike_settledList vs) fun us => alike_pure _

theorem alike_settledEntries (es : List (Value × Value)) :
    Alike (settledEntries es) (settledEntries es) := by
  cases es with
  | nil => exact alike_pure _
  | cons e es =>
    obtain ⟨k, v⟩ := e
    refine alike_bind (alike_settled k) fun k' => ?_
    refine alike_bind (alike_settled v) fun v' => ?_
    exact alike_bind (alike_settledEntries es) fun es' => alike_pure _

end

theorem alike_own (x : Outcome Value) : Alike (own x) (own x) := by
  refine alike_bind (alike_outcome rfl) fun v => ?_
  exact alike_ite (fun _ => alike_settled v) fun _ => alike_pure v

theorem alike_makeProxy (v : Value) : Alike (makeProxy v) (makeProxy v) := alike_owned _

theorem alike_makeCelsius (v : Value) : Alike (makeCelsius v) (makeCelsius v) :=
  alike_newObject _ _

theorem alike_filledFields (fields : List MemberDecl) (given : List (String × Value)) :
    Alike (filledFields fields given) (filledFields fields given) := by
  refine alike_mapM fields fun m _ => ?_
  split
  · exact alike_pure _
  · exact alike_bind (alike_own _) fun _ => alike_pure _
  · exact alike_throw rfl

theorem alike_makeInstance (w : World) (className : String) (given : List (String × Value)) :
    Alike (makeInstance w className given) (makeInstance w className given) := by
  unfold makeInstance
  have filled := fun fields : List MemberDecl =>
    alike_bind (alike_filledFields fields given) fun values =>
      alike_newObject (.declared className) values
  split
  · exact alike_guard (filled _)
  · exact alike_guard (filled _)
  · exact alike_guard (alike_newObject _ _)

theorem alike_construct (w : World) (t : HostType) (args : List Value) :
    Alike (construct w t args) (construct w t args) := by
  unfold construct
  split
  · exact alike_makeCelsius _
  · exact alike_own _
  · exact alike_outcome rfl
  · exact alike_outcome rfl
  · exact alike_throw rfl
  · exact alike_ite (fun _ => alike_makeInstance _ _ _) fun _ => alike_throw rfl
  · exact alike_throw rfl

theorem alike_assign (w : World) (target : Value) (name : String) (v : Value) :
    Alike (target.assign w name v) (target.assign w name v) := by
  refine alike_bind (alike_now w) fun now => ?_
  split
  · exact alike_throw rfl
  · exact alike_bind (alike_outcome rfl) fun _ => alike_put _ _
  · refine alike_bind (alike_outcome rfl) fun _ => ?_
    refine alike_bind (alike_outcome rfl) fun o => ?_
    split
    · exact alike_put _ _
    · exact alike_pure _

end Value

theorem Primitive.alike_apply (w : World) (p : Primitive) (args : List Value) :
    Alike (p.apply w args) (p.apply w args) := by
  unfold Primitive.apply
  split
  · next v =>
    cases p with
    | len | length | negate =>
      exact alike_bind (alike_outcome rfl) fun _ => alike_pure _
    | sum | max => exact alike_bind (alike_outcome rfl) fun _ => Value.alike_own _
    | toCelsius => exact Value.alike_makeCelsius v
    | listify => exact alike_pure _
    | fail => exact alike_throw rfl
    | _ => exact Value.alike_own _
  · exact alike_bind (alike_outcome rfl) fun _ => Value.alike_own _
  · exact Value.alike_own _
  · exact alike_throw rfl

end EntityGraph
