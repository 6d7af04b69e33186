import EntityGraph.Proofs.Request.Akin
import EntityGraph.Proofs.Request.Shaped

/-!
# Requests to pure applications are steady

An application is pure if its functions cannot tell what was done before: for values that cannot be
told apart they give values that cannot be told apart, and they leave behind only what may become of
a memory. Then whole requests cannot tell either.

Two runs of one request draw plans of one shape. The lambdas in them may be different ones, if they
were captured anew, but they cannot be told apart by what they give. The rows for which they are
assembled have different numbers and are bound amid different rows further out; in the end they stand
for values that cannot be told apart.
-/

namespace EntityGraph

open Remembering (memory)

variable {w : World}

/-! ## Pure applications -/

/-- Whether a computation evaluates the body of a lambda somewhere in a composed expression, with a
row for this value in the place of the entity. -/
def Computes (u : World) (context : Value) (entity : Param) (body : Expr Value) (v : Value)
    (x : Making Value) : Prop :=
  ∃ (n : Nat) (row : Param) (s : Scope Value), (Expr.lambda [entity] body).ceiling ≤ n ∧ n < row.id
    ∧ Grounds u context n s ∧ s.lookup? row = some v
    ∧ x = (body.substitute fun p => if p == entity then some (.param row) else none).eval u.host s

/-- Lambdas of a field that cannot be told apart by what they give for entities that cannot. -/
def BodiesAlike (L : Likeness w) (u u' : World) (context : Value) (owner : HostType) (f : FieldDecl)
    (l : Param × Expr Value) (m : Memory) (l' : Param × Expr Value) (m' : Memory) : Prop :=
  ∀ {v v' n n'}, L.later m n → L.later m' n' → L.alike owner false v n v' n' →
    ∀ {x x'}, Computes u context l.1 l.2 v x → Computes u' context l'.1 l'.2 v' x' →
      Steady L.later n n' (L.alike f.host f.isList) x x'

/-- The value of a body over the context alone. -/
def World.evaluateBody (u : World) (body : Expr Value) (context : Value) : Making Value :=
  body.eval u.host (.bind u.schema.context context .empty)

/-- An application whose functions cannot tell what was done before, as far as queries with these
names need them: those for values of queries, those for fields, and those that are called after a
query. -/
structure World.Pure (w : World) (L : Likeness w) (context : Value) (asked : String → Prop) :
    Prop where
  query : ∀ q ∈ w.schema.queries, asked q.name → ∀ args {u u'}, w.Becomes L.later u →
    w.Becomes L.later u' →
      Steady L.later u.memory u'.memory
        (fun body n body' n' => Steady L.later n n' (L.alike q.host q.isList)
          (u.evaluateBody body context) (u'.evaluateBody body' context))
        (Compose.queryValue u q args) (Compose.queryValue u' q args)
  field : ∀ t ∈ w.schema.types, ∀ f ∈ t.fields, f.isPost = false → ∀ args {u u'},
    w.Becomes L.later u → w.Becomes L.later u' →
      Steady L.later u.memory u'.memory (BodiesAlike L u u' context t.host f)
        (Compose.lend u t f args) (Compose.lend u' t f args)
  post : ∀ t ∈ w.schema.types, ∀ f ∈ t.fields, f.isPost = true → ∀ {u u'},
    w.Becomes L.later u → w.Becomes L.later u' →
      Steady L.later u.memory u'.memory (L.alike f.host f.isList) (f.computePost u)
        (f.computePost u')

/-! ## Filling in records -/

namespace Materialize

variable {L : Likeness w}

theorem steady_records {n n' : Memory} {host : HostType}
    {fill fill' : List (String × Value) → Making (List (String × Value))}
    (fills : ∀ es es', AkinEntries L n n' (w.schema.typeOf host) es es' →
      Steady L.later n n' (fun es k es' k' => AkinEntries L k k' (w.schema.typeOf host) es es')
        (fill es) (fill' es'))
    {isList : Bool} {v v' : Value} (akin : Akin L n n' true host isList v v') :
    Steady L.later n n' (fun v k v' k' => Akin L k k' true host isList v v')
      (records fill isList v) (records fill' isList v') := by
  have one {u u' : Value} (akin : Akin L n n' true host false u u') :
      Steady L.later n n' (fun v k v' k' => Akin L k k' true host false v v')
        (records fill false u) (records fill' false u') := by
    cases akin with
    | missing => exact steady_pure fun _ _ _ _ => .missing
    | record entries =>
      refine steady_bind (fills _ _ entries) fun es es' k k' _ _ filled => ?_
      exact steady_pure fun l l' hl hl' => .record (filled.lasts hl hl')
  cases akin with
  | missing =>
    cases isList with
    | true => exact steady_pure fun _ _ _ _ => .missing
    | false => exact one .missing
  | record entries => exact one (.record entries)
  | @records _ us us' each =>
    have lasting : Lasting L.later fun v k v' k' => Akin L k k' true host false v v' :=
      fun _ _ _ _ _ _ hk hk' akin => akin.lasts hk hk'
    have all : List.Forall₂ (fun u u' => Steady L.later n n'
        (fun v k v' k' => Akin L k k' true host false v v')
          (records fill false u) (records fill' false u')) us us' :=
      (akinEach_iff.1 each).imp fun _ _ => one
    refine steady_bind (steady_mapM lasting all) fun vs vs' k k' _ _ filled => ?_
    exact steady_pure fun l l' hl hl' => .records ((akinEach_iff.2 filled).lasts hl hl')

variable {context : Value} {asked : String → Prop}

mutual

theorem steady_field (pure : w.Pure L context asked) {t : TypeDecl} (declared : t ∈ w.schema.types)
    (s : Selected) {u u' : World} {n n' : Memory} (hu : w.Becomes L.later u)
    (hu' : w.Becomes L.later u') (hn : L.later u.memory n)
    (hn' : L.later u'.memory n') {es es' : List (String × Value)}
    (akin : AkinEntries L n n' t es es') :
    Steady L.later n n' (fun es k es' k' => AkinEntries L k k' t es es') (field u t s es)
      (field u' t s es') := by
  obtain ⟨name, args, children⟩ := s
  rw [field, field]
  cases found : t.findField? name with
  | none => exact steady_throw rfl
  | some f =>
    have member : f ∈ t.fields := List.mem_of_find?_eq_some found
    dsimp only
    cases post : f.isPost with
    | true =>
      rw [if_pos rfl, if_pos rfl]
      refine steady_bind ((pure.post t declared f member post hu hu').onwards hn hn')
        fun v v' k k' hk hk' alike => ?_
      refine steady_outcome fun l l' hl hl' => ?_
      unfold TypeDecl.setPost
      split
      · have value : AkinField L l l' t name v v' := by
          refine ⟨f, found, ?_⟩
          rw [FieldDecl.isProjected, post]
          exact .plain (L.lasting _ _ _ _ _ _ _ _ hl hl' alike)
        have entries :=
          akin.lasts (IsTrans.trans _ _ _ hk hl) (IsTrans.trans _ _ _ hk' hl')
        exact akinEntries_iff.2 ((akinEntries_iff.1 entries).putNamed value)
      · exact Eq.refl FaultKind.assertion
    | false =>
      rw [if_neg Bool.false_ne_true, if_neg Bool.false_ne_true, hu.typeOf, hu'.typeOf]
      cases scalar : (w.schema.typeOf f.host).isScalar with
      | true => exact steady_pure fun l l' hl hl' => akin.lasts hl hl'
      | false =>
        rw [if_neg Bool.false_ne_true, if_neg Bool.false_ne_true]
        obtain ⟨none, none'⟩ | ⟨v, v', here, here', g, same, value⟩ :=
          (akinEntries_iff.1 akin).lookup name
        · rw [none, none']
          exact steady_throw rfl
        · rw [here, here']
          obtain rfl : f = g := Option.some.inj (found.symm.trans same)
          rw [FieldDecl.isProjected, post, scalar] at value
          refine steady_bind (steady_records (fun es es' entries => ?_) value)
            fun v v' k k' hk hk' filled => ?_
          · refine steady_bind (steady_fields pure (typeOf_mem scalar) children hu hu' hn hn' entries)
              fun es es' k k' _ _ entries => ?_
            refine steady_pure fun l l' hl hl' => AkinEntries.lasts ?_ hl hl'
            exact akinEntries_iff.2 ((akinEntries_iff.1 entries).reorder _)
          · refine steady_pure fun l l' hl hl' => ?_
            have value : AkinField L l l' t name v v' := by
              refine ⟨f, found, ?_⟩
              rw [FieldDecl.isProjected, post, scalar]
              exact filled.lasts hl hl'
            have entries :=
              akin.lasts (IsTrans.trans _ _ _ hk hl) (IsTrans.trans _ _ _ hk' hl')
            exact akinEntries_iff.2 ((akinEntries_iff.1 entries).putNamed value)

theorem steady_fields (pure : w.Pure L context asked) {t : TypeDecl}
    (declared : t ∈ w.schema.types) (ss : List Selected) {u u' : World} {n n' : Memory}
    (hu : w.Becomes L.later u) (hu' : w.Becomes L.later u')
    (hn : L.later u.memory n) (hn' : L.later u'.memory n') {es es' : List (String × Value)}
    (akin : AkinEntries L n n' t es es') :
    Steady L.later n n' (fun es k es' k' => AkinEntries L k k' t es es') (fields u t ss es)
      (fields u' t ss es') := by
  cases ss with
  | nil => exact steady_pure fun l l' hl hl' => akin.lasts hl hl'
  | cons s rest =>
    rw [fields, fields]
    refine steady_bind (steady_field pure declared s hu hu' hn hn' akin)
      fun es es' k k' hk hk' filled => ?_
    exact steady_fields pure declared rest hu hu' (IsTrans.trans _ _ _ hn hk)
      (IsTrans.trans _ _ _ hn' hk') filled

end

theorem steady_value (pure : w.Pure L context asked) {host : HostType} (ss : List Selected)
    (isList : Bool) {u u' : World} {n n' : Memory}
    (hu : w.Becomes L.later u) (hu' : w.Becomes L.later u') (hn : L.later u.memory n)
    (hn' : L.later u'.memory n') {v v' : Value}
    (akin : Akin L n n' (!(w.schema.typeOf host).isScalar) host isList v v') :
    Steady L.later n n'
      (fun v k v' k' => Akin L k k' (!(w.schema.typeOf host).isScalar) host isList v v')
      (value u (w.schema.typeOf host) ss isList v) (value u' (w.schema.typeOf host) ss isList v') := by
  unfold value
  cases scalar : (w.schema.typeOf host).isScalar with
  | true =>
    rw [scalar] at akin
    exact steady_pure fun l l' hl hl' => akin.lasts hl hl'
  | false =>
    rw [scalar] at akin
    refine steady_records (fun es es' entries => ?_) akin
    refine steady_bind (steady_fields pure (typeOf_mem scalar) ss hu hu' hn hn' entries)
      fun es es' k k' _ _ entries => ?_
    refine steady_pure fun l l' hl hl' => AkinEntries.lasts ?_ hl hl'
    exact akinEntries_iff.2 ((akinEntries_iff.1 entries).reorder _)

end Materialize

/-! ## Plans -/

section

variable {L : Likeness w} {context : Value}

mutual

/-- Plans of one shape for values of a type, with lambdas that cannot be told apart. -/
inductive PlansAlike (L : Likeness w) (u u' : World) (context : Value) (m m' : Memory) :
    HostType → Bool → Plan → Plan → Prop
  | plain {host : HostType} {isList : Bool} (scalar : (w.schema.typeOf host).isScalar = true) :
      PlansAlike L u u' context m m' host isList .plain .plain
  | records {host : HostType} {isList : Bool} {ms ms' : List Member}
      (entity : (w.schema.typeOf host).isScalar = false)
      (members : MembersAlike L u u' context m m' (w.schema.typeOf host) ms ms') :
      PlansAlike L u u' context m m' host isList
        (.records isList (w.schema.typeOf host).name ms)
        (.records isList (w.schema.typeOf host).name ms')

/-- Members for the same fields of a type, with lambdas that cannot be told apart. -/
inductive MembersAlike (L : Likeness w) (u u' : World) (context : Value) (m m' : Memory) :
    TypeDecl → List Member → List Member → Prop
  | nil {t : TypeDecl} : MembersAlike L u u' context m m' t [] []
  | cons {t : TypeDecl} {f : FieldDecl} {name : String} {entity entity' : Param}
      {body body' : Expr Value} {plan plan' : Plan} {ms ms' : List Member}
      (found : t.findField? name = some f) (pre : f.isPost = false)
      (bodies : BodiesAlike L u u' context t.host f (entity, body) m (entity', body') m')
      (plans : PlansAlike L u u' context m m' f.host f.isList plan plan')
      (others : MembersAlike L u u' context m m' t ms ms') :
      MembersAlike L u u' context m m' t (.mk name entity body plan :: ms)
        (.mk name entity' body' plan' :: ms')

end

variable {u u' : World} {m m' n n' : Memory}

theorem BodiesAlike.lasts {owner : HostType} {f : FieldDecl} {l l' : Param × Expr Value}
    (h : BodiesAlike L u u' context owner f l m l' m') (hn : L.later m n) (hn' : L.later m' n') :
    BodiesAlike L u u' context owner f l n l' n' :=
  fun hk hk' => h (IsTrans.trans _ _ _ hn hk) (IsTrans.trans _ _ _ hn' hk')

mutual

theorem PlansAlike.lasts {host : HostType} {isList : Bool} {plan plan' : Plan}
    (h : PlansAlike L u u' context m m' host isList plan plan') (hn : L.later m n)
    (hn' : L.later m' n') : PlansAlike L u u' context n n' host isList plan plan' := by
  cases h with
  | plain scalar => exact .plain scalar
  | records entity members => exact .records entity (members.lasts hn hn')

theorem MembersAlike.lasts {t : TypeDecl} {ms ms' : List Member}
    (h : MembersAlike L u u' context m m' t ms ms') (hn : L.later m n) (hn' : L.later m' n') :
    MembersAlike L u u' context n n' t ms ms' := by
  cases h with
  | nil => exact .nil
  | cons found pre bodies plans others =>
    exact .cons found pre (bodies.lasts hn hn') (plans.lasts hn hn') (others.lasts hn hn')

end

end

namespace Compose

variable {L : Likeness w} {context : Value} {asked : String → Prop} {u u' : World}

theorem selectedField_becomes (hu : w.Becomes L.later u) (t : TypeDecl) (name : String)
    (hasChildren : Bool) : selectedField u t name hasChildren = selectedField w t name hasChildren := by
  unfold selectedField
  split
  · rfl
  · rw [hu.typeOf]

theorem steady_planWith (u u' : World) (context : Value) {n n' : Memory} {host : HostType}
    {isList : Bool} (isEmpty : Bool) {x x' : Making (List Member)}
    (members : (w.schema.typeOf host).isScalar = false →
      Steady L.later n n' (fun ms k ms' k' =>
        MembersAlike L u u' context k k' (w.schema.typeOf host) ms ms') x x') :
    Steady L.later n n' (fun plan k plan' k' => PlansAlike L u u' context k k' host isList plan plan')
      (planWith (w.schema.typeOf host) isList isEmpty x)
      (planWith (w.schema.typeOf host) isList isEmpty x') := by
  unfold planWith
  cases scalar : (w.schema.typeOf host).isScalar with
  | true => exact steady_pure fun _ _ _ _ => .plain scalar
  | false =>
    cases isEmpty with
    | true => exact steady_throw rfl
    | false =>
      cases (w.schema.typeOf host).projection.isNone with
      | true => exact steady_throw rfl
      | false =>
        refine steady_bind (members scalar) fun ms ms' k k' _ _ alike => ?_
        exact steady_pure fun l l' hl hl' => .records scalar (alike.lasts hl hl')

mutual

theorem steady_member (pure : w.Pure L context asked) (hu : w.Becomes L.later u)
    (hu' : w.Becomes L.later u') {t : TypeDecl} (declared : t ∈ w.schema.types)
    (seen : List String) (s : Selected) {n n' : Memory} (hn : L.later u.memory n)
    (hn' : L.later u'.memory n') :
    Steady L.later n n' (fun o k o' k' => MembersAlike L u u' context k k' t o.toList o'.toList)
      (member u t seen s) (member u' t seen s) := by
  obtain ⟨name, args, children⟩ := s
  rw [member, member, selectedField_becomes hu, selectedField_becomes hu']
  refine steady_bind (Q := fun f _ f' _ => f = f' ∧ t.findField? name = some f) ?_
    fun f f' k k' hk hk' same => ?_
  · refine steady_outcome fun _ _ _ _ => matches_refl _ fun f selected => ?_
    exact ⟨rfl, (selectedField_ok selected).1⟩
  · obtain ⟨rfl, found⟩ := same
    refine steady_ite Iff.rfl (fun _ _ => steady_pure fun _ _ _ _ => .nil) fun later _ => ?_
    have pre : f.isPost = false := by
      cases post : f.isPost with
      | false => rfl
      | true => exact absurd (by simp [post]) later
    have lent := pure.field t declared f (List.mem_of_find?_eq_some found) pre args hu hu'
    refine steady_bind (lent.onwards (IsTrans.trans _ _ _ hn hk) (IsTrans.trans _ _ _ hn' hk'))
      fun l l' j j' hj hj' bodies => ?_
    rw [hu.typeOf, hu'.typeOf]
    refine steady_bind (steady_planWith u u' context children.isEmpty fun entity => ?_)
      fun plan plan' i i' hi hi' plans => ?_
    · exact steady_members pure hu hu' (typeOf_mem entity) [] children
        (IsTrans.trans _ _ _ hn (IsTrans.trans _ _ _ hk hj))
        (IsTrans.trans _ _ _ hn' (IsTrans.trans _ _ _ hk' hj'))
    · refine steady_pure fun r r' hr hr' => .cons found pre ?_ (plans.lasts hr hr') .nil
      exact bodies.lasts (IsTrans.trans _ _ _ hi hr) (IsTrans.trans _ _ _ hi' hr')

theorem steady_members (pure : w.Pure L context asked) (hu : w.Becomes L.later u)
    (hu' : w.Becomes L.later u') {t : TypeDecl} (declared : t ∈ w.schema.types)
    (seen : List String) (ss : List Selected) {n n' : Memory} (hn : L.later u.memory n)
    (hn' : L.later u'.memory n') :
    Steady L.later n n' (fun ms k ms' k' => MembersAlike L u u' context k k' t ms ms')
      (members u t seen ss) (members u' t seen ss) := by
  cases ss with
  | nil => exact steady_pure fun _ _ _ _ => .nil
  | cons s rest =>
    rw [members, members]
    refine steady_bind (steady_member pure hu hu' declared seen s hn hn')
      fun o o' k k' hk hk' first => ?_
    have later := fun seen : List String => steady_members pure hu hu' declared seen rest
      (IsTrans.trans _ _ _ hn hk) (IsTrans.trans _ _ _ hn' hk')
    cases o with
    | none =>
      cases o' with
      | none => exact later _
      | some member' => cases first
    | some member =>
      cases o' with
      | none => cases first
      | some member' =>
        refine steady_bind (later _) fun ms ms' j j' hj hj' others => ?_
        refine steady_pure fun r r' hr hr' => ?_
        cases first with
        | cons found pre bodies plans _ =>
          have longer := IsTrans.trans _ _ _ hj hr
          have longer' := IsTrans.trans _ _ _ hj' hr'
          exact .cons found pre (bodies.lasts longer longer') (plans.lasts longer longer')
            (others.lasts hr hr')

end

end Compose

/-! ## Composed expressions -/

section

variable {L : Likeness w} {context : Value} {u u' : World} {n n' : Memory}

theorem steady_now (hu : w.Becomes L.later u) (hu' : w.Becomes L.later u')
    (hn : L.later u.memory n) (hn' : L.later u'.memory n') :
    Steady L.later n n' (fun v k v' k' =>
        (w.Becomes L.later v ∧ v.memory = k) ∧ w.Becomes L.later v' ∧ v'.memory = k')
      (Making.now u) (Making.now u') := by
  intro t t' ht ht'
  refine ⟨Std.Refl.refl _, Std.Refl.refl _, ⟨hu.after ?_, rfl⟩, hu'.after ?_, rfl⟩
  · exact IsTrans.trans _ _ _ hn ht
  · exact IsTrans.trans _ _ _ hn' ht'

/-- The elements of sequences that cannot be told apart. -/
theorem Likeness.steady_elementsOf (hu : w.Becomes L.later u) (hu' : w.Becomes L.later u')
    (hn : L.later u.memory n) (hn' : L.later u'.memory n') {host : HostType} {v v' : Value}
    (alike : L.alike host true v n v' n') (present : v.isNone = false) :
    Steady L.later n n' (fun vs k vs' k' =>
        List.Forall₂ (fun x x' => L.alike host false x k x' k') vs vs')
      (Making.now u >>= fun now => (liftM (Value.elements now v) : Making (List Value)))
      (Making.now u' >>= fun now => (liftM (Value.elements now v') : Making (List Value))) := by
  refine steady_bind (steady_now hu hu' hn hn') fun now now' k k' hk hk' here => ?_
  obtain ⟨⟨hnow, rfl⟩, hnow', rfl⟩ := here
  have elements := L.elements hnow hnow' (L.lasting _ _ _ _ _ _ _ _ hk hk' alike) present
  exact steady_outcome fun l l' hl hl' => elements.mono fun vs vs' all =>
    all.imp fun x x' alike => L.lasting _ _ _ _ _ _ _ _ hl hl' alike

/-- The elements of sequences that cannot be told apart, and what follows. -/
theorem Likeness.steady_elements {α β : Type} {Q : α → Memory → β → Memory → Prop}
    (hu : w.Becomes L.later u) (hu' : w.Becomes L.later u') (hn : L.later u.memory n)
    (hn' : L.later u'.memory n') {host : HostType} {v v' : Value}
    (alike : L.alike host true v n v' n') (present : v.isNone = false)
    {f : List Value → Making α} {g : List Value → Making β}
    (rest : ∀ vs vs' k k', L.later n k → L.later n' k' →
      List.Forall₂ (fun x x' => L.alike host false x k x' k') vs vs' →
        Steady L.later k k' Q (f vs) (g vs')) :
    Steady L.later n n' Q (do f (← Value.elements (← Making.now u) v))
      (do g (← Value.elements (← Making.now u') v')) := by
  rw [← bind_assoc, ← bind_assoc]
  exact steady_bind (L.steady_elementsOf hu hu' hn hn' alike present) rest

namespace Paging

theorem steady_cutOne (hu : w.Becomes L.later u) (hu' : w.Becomes L.later u')
    (hn : L.later u.memory n) (hn' : L.later u'.memory n') {cut : Nat → List Value → List Value}
    (pairs : ∀ k {R : Value → Value → Prop} {vs vs'}, List.Forall₂ R vs vs' →
      List.Forall₂ R (cut k vs) (cut k vs'))
    (bound : Value) {host : HostType} {v v' : Value} (alike : L.alike host true v n v' n') :
    Steady L.later n n' (L.alike host true) (cutOne u cut bound v) (cutOne u' cut bound v') := by
  have same := L.missing alike
  have still {k k'} (hk : L.later n k) (hk' : L.later n' k') : L.alike host true v k v' k' :=
    L.lasting _ _ _ _ _ _ _ _ hk hk' alike
  unfold cutOne
  split
  · next bound =>
    cases missing : v.isNone with
    | true =>
      rw [missing] at same
      rw [if_pos rfl, if_pos same.symm]
      rw [Value.eq_none_of_isNone missing, Value.eq_none_of_isNone same.symm] at still
      exact steady_pure fun _ _ hk hk' => still hk hk'
    | false =>
      rw [missing] at same
      rw [if_neg Bool.false_ne_true, if_neg (by simp [← same])]
      refine L.steady_elements hu hu' hn hn' alike missing fun vs vs' k k' _ _ all => ?_
      refine steady_pure fun l l' hl hl' => L.list (pairs _ (all.imp fun x x' => ?_))
      exact L.lasting _ _ _ _ _ _ _ _ hl hl'
  · exact steady_pure fun _ _ hk hk' => still hk hk'

theorem steady_cut (hu : w.Becomes L.later u) (hu' : w.Becomes L.later u')
    (hn : L.later u.memory n) (hn' : L.later u'.memory n') {p : Paging} {q : QueryDecl}
    (checked : p.check q = .ok ()) {v v' : Value} (alike : L.alike q.host q.isList v n v' n') :
    Steady L.later n n' (L.alike q.host q.isList) (p.cut u v) (p.cut u' v') := by
  cases isList : q.isList with
  | true =>
    rw [isList] at alike
    refine steady_bind (steady_cutOne hu hu' hn hn' (fun k => List.forall₂_drop k) _ alike)
      fun x x' k k' hk hk' alike => ?_
    exact steady_cutOne hu hu' (IsTrans.trans _ _ _ hn hk) (IsTrans.trans _ _ _ hn' hk')
      (fun k => List.forall₂_take k) _ alike
  | false =>
    obtain ⟨_, _, single⟩ := check_ok checked
    obtain ⟨offset, limit⟩ := single isList
    rw [isList] at alike
    unfold cut
    rw [Value.eq_none_of_isNone offset, Value.eq_none_of_isNone limit]
    exact steady_pure fun _ _ hk hk' => L.lasting _ _ _ _ _ _ _ _ hk hk' alike

end Paging

/-- The context is the one parameter bound around a request. -/
theorem grounds_context (v : World) (context : Value) (k : Nat) :
    Grounds v context k (.bind v.schema.context context .empty) :=
  fun p _ => by simp [Scope.lookup?]

/-- What the evaluated members of a record are: its entries, for fields that cannot be told apart. -/
def PairsAlike (L : Likeness w) (t : TypeDecl) (ms ms' : List Member) (ps : List Value) (m : Memory)
    (ps' : List Value) (m' : Memory) : Prop :=
  ∃ es es' : List (String × Value), ps = es.map Value.entryPair ∧ ps' = es'.map Value.entryPair
    ∧ es.map (·.1) = ms.map (·.name) ∧ es'.map (·.1) = ms'.map (·.name) ∧ AkinEntries L m m' t es es'

/-- Record classes make records of the members of plans. -/
theorem steady_record (sealed : Sealed u) (sealed' : Sealed u') (orderly : Orderly u.schema.types)
    (orderly' : Orderly u'.schema.types) {host : HostType} {name : String} {ms ms' : List Member}
    (fits : (Plan.records false name ms).Fits u) (fits' : (Plan.records false name ms').Fits u')
    {fs fs' : List (Value × Expr Value)} {s s' : Scope Value}
    (members : Steady L.later n n' (PairsAlike L (w.schema.typeOf host) ms ms')
      (Expr.evalFields u.host fs s) (Expr.evalFields u'.host fs' s')) :
    Steady L.later n n' (fun v k v' k' => Akin L k k' true host false v v')
      ((Expr.record (.type (.record name)) fs).eval u.host s)
      ((Expr.record (.type (.record name)) fs').eval u'.host s') := by
  obtain ⟨⟨t, declared, entity, rfl, nodup, known⟩, _⟩ := fits
  obtain ⟨⟨t', declared', entity', same, nodup', known'⟩, _⟩ := fits'
  refine steady_bind members fun ps ps' k k' _ _ pairs => ?_
  obtain ⟨es, es', rfl, rfl, names, names', entries⟩ := pairs
  rw [← names] at nodup known
  rw [← names'] at nodup' known'
  refine steady_of_ok fun a a' ha ha' => ?_
  have called' := runOn_call_record sealed' orderly' declared' entity' nodup' known' a'
  rw [same] at called'
  have called := runOn_call_record sealed orderly declared entity nodup known a
  exact ⟨_, _, _, _, ⟨called, rfl⟩, ⟨called', rfl⟩, .record (entries.lasts ha ha')⟩

set_option linter.unusedSectionVars false

variable (sealed : Sealed u) (sealed' : Sealed u') (orderly : Orderly u.schema.types)
  (orderly' : Orderly u'.schema.types) (hu : w.Becomes L.later u) (hu' : w.Becomes L.later u')
  (hn : L.later u.memory n) (hn' : L.later u'.memory n') {k k' : Nat}

include sealed sealed' orderly orderly' hu hu' hn hn'

/-- Whether the members of a record, evaluated for rows of entities that cannot be told apart, make
entries that cannot. -/
def RowsSteady (L : Likeness w) (u u' : World) (context : Value) (n n' : Memory) (k k' : Nat)
    (t : TypeDecl) (ms ms' : List Member) (row row' : Param) (fs fs' : List (Value × Expr Value)) :
    Prop :=
  ∀ s s' v v', Grounds u context k s → Grounds u' context k' s' → s.lookup? row = some v →
    s'.lookup? row' = some v' → ∀ l l', L.later n l → L.later n' l' → L.alike t.host false v l v' l' →
      Steady L.later l l' (PairsAlike L t ms ms') (Expr.evalFields u.host fs s)
        (Expr.evalFields u'.host fs' s')

/-- The records of entities that cannot be told apart, for rows of their own. -/
theorem steady_row {host : HostType} {name : String} {ms ms' : List Member} {row row' : Param}
    (fits : (Plan.records false name ms).Fits u) (fits' : (Plan.records false name ms').Fits u')
    (apart : k < row.id) (apart' : k' < row'.id) {fs fs' : List (Value × Expr Value)}
    (steady : RowsSteady L u u' context n n' k k' (w.schema.typeOf host) ms ms' row row' fs fs')
    {s s' : Scope Value} (grounds : Grounds u context k s) (grounds' : Grounds u' context k' s')
    {l l' : Memory} (hl : L.later n l) (hl' : L.later n' l') {v v' : Value}
    (alike : L.alike host false v l v' l') :
    Steady L.later l l' (fun v j v' j' => Akin L j j' true host false v v')
      ((Expr.record (.type (.record name)) fs).eval u.host (.bind row v s))
      ((Expr.record (.type (.record name)) fs').eval u'.host (.bind row' v' s')) := by
  refine steady_record sealed sealed' orderly orderly' fits fits' ?_
  refine steady (.bind row v s) (.bind row' v' s') v v' (grounds.bind apart v)
    (grounds'.bind apart' v') (by simp [Scope.lookup?]) (by simp [Scope.lookup?]) l l' hl hl' ?_
  rw [Schema.typeOf_host]
  exact alike

mutual

/-- The projections of values that cannot be told apart cannot be told apart. -/
theorem Plan.steady_assemble (plan : Plan) {plan' : Plan} {host : HostType} {isList : Bool}
    (alike : PlansAlike L u u' context n n' host isList plan plan') (fits : plan.Fits u)
    (fits' : plan'.Fits u') (low : plan.ceiling ≤ k) (low' : plan'.ceiling ≤ k')
    {value value' e e' : Expr Value} {a b a' b' : Trail} (new : k ≤ a.supply)
    (new' : k' ≤ a'.supply) (made : runOn (plan.assemble value) a = (.ok e, b))
    (made' : runOn (plan'.assemble value') a' = (.ok e', b')) :
    (k ≤ b.supply ∧ k' ≤ b'.supply) ∧ ∀ s s', Grounds u context k s → Grounds u' context k' s' →
      ∀ l l', L.later n l → L.later n' l' →
        Steady L.later l l' (L.alike host isList) (value.eval u.host s) (value'.eval u'.host s') →
          Steady L.later l l'
            (fun v i v' i' => Akin L i i' (!(w.schema.typeOf host).isScalar) host isList v v')
            (e.eval u.host s) (e'.eval u'.host s') := by
  cases alike with
  | plain scalar =>
    cases made
    cases made'
    refine ⟨⟨new, new'⟩, fun s s' _ _ l l' _ _ values => values.mono fun v i v' i' _ _ alike => ?_⟩
    rw [scalar]
    exact .plain alike
  | @records _ _ ms ms' entity members =>
    -- The rows are new, so their numbers may differ; they are apart from all that the members use.
    let row : Param := ⟨a.supply + 1, Schema.entityName (w.schema.typeOf host).name⟩
    let row' : Param := ⟨a'.supply + 1, Schema.entityName (w.schema.typeOf host).name⟩
    obtain ⟨fs, assembled, rfl⟩ := Plan.assemble_records_ok made
    obtain ⟨fs', assembled', rfl⟩ := Plan.assemble_records_ok made'
    obtain ⟨above, steady⟩ := membersSteady_assemble ms members fits.2 fits'.2 low low' row row'
      (show k < a.supply + 1 by omega) (show k' < a'.supply + 1 by omega)
      (show k ≤ a.supply + 1 by omega) (show k' ≤ a'.supply + 1 by omega) assembled assembled'
    refine ⟨above, fun s s' grounds grounds' l l' hl hl' values => ?_⟩
    have apart : k < row.id := Nat.lt_succ_of_le new
    have apart' : k' < row'.id := Nat.lt_succ_of_le new'
    have record {v v' i i'} (hi : L.later l i) (hi' : L.later l' i')
        (alike : L.alike host false v i v' i') :=
      steady_row sealed sealed' orderly orderly' hu hu' hn hn' fits fits' apart apart' steady
        grounds grounds'
        (IsTrans.trans _ _ _ hl hi) (IsTrans.trans _ _ _ hl' hi') alike
    rw [entity]
    cases isList with
    | false =>
      show Steady _ _ _ _ ((guarded row _ value).eval u.host s)
        ((guarded row' _ value').eval u'.host s')
      rw [eval_guarded, eval_guarded]
      refine steady_bind values fun v v' i i' hi hi' alike => ?_
      refine steady_ite (by rw [L.missing alike]) (fun _ _ => ?_) fun _ _ => record hi hi' alike
      exact steady_pure fun _ _ _ _ => .missing
    | true =>
      show Steady _ _ _ _ ((Expr.seq .select value [.lambda [row] _]).eval u.host s)
        ((Expr.seq .select value' [.lambda [row'] _]).eval u'.host s')
      rw [eval_select, eval_select]
      refine steady_bind values fun v v' i i' hi hi' alike => ?_
      refine steady_ite (by rw [L.missing alike]) (fun _ _ => ?_) fun present _ => ?_
      · exact steady_pure fun _ _ _ _ => .missing
      · refine L.steady_elements hu hu' (IsTrans.trans _ _ _ hn (IsTrans.trans _ _ _ hl hi))
          (IsTrans.trans _ _ _ hn' (IsTrans.trans _ _ _ hl' hi')) alike (by simpa using present)
          fun vs vs' j j' hj hj' all => ?_
        have each : List.Forall₂ (fun v v' => Steady L.later j j'
            (fun v g v' g' => Akin L g g' true host false v v')
            ((Expr.record (.type (.record (w.schema.typeOf host).name)) fs).eval u.host
              (.bind row v s))
            ((Expr.record (.type (.record (w.schema.typeOf host).name)) fs').eval u'.host
              (.bind row' v' s'))) vs vs' :=
          all.imp fun v v' alike => record (IsTrans.trans _ _ _ hi hj) (IsTrans.trans _ _ _ hi' hj')
            alike
        refine steady_bind (steady_mapM (fun _ _ _ _ _ _ hg hg' akin => akin.lasts hg hg') each)
          fun us us' g g' _ _ akin => ?_
        exact steady_pure fun h h' hh hh' => .records ((akinEach_iff.2 akin).lasts hh hh')

/-- Members for rows of entities that cannot be told apart make entries that cannot. -/
theorem membersSteady_assemble (ms : List Member) {ms' : List Member} {t : TypeDecl}
    (alike : MembersAlike L u u' context n n' t ms ms') (fit : MembersFit u ms)
    (fit' : MembersFit u' ms') (low : ceilingOfMembers ms ≤ k) (low' : ceilingOfMembers ms' ≤ k')
    (row row' : Param) (apart : k < row.id) (apart' : k' < row'.id)
    {fs fs' : List (Value × Expr Value)} {a b a' b' : Trail} (new : k ≤ a.supply)
    (new' : k' ≤ a'.supply) (made : runOn (assembleMembers row ms) a = (.ok fs, b))
    (made' : runOn (assembleMembers row' ms') a' = (.ok fs', b')) :
    (k ≤ b.supply ∧ k' ≤ b'.supply)
      ∧ RowsSteady L u u' context n n' k k' t ms ms' row row' fs fs' := by
  cases alike with
  | nil =>
    cases made
    cases made'
    refine ⟨⟨new, new'⟩, fun s s' v v' _ _ _ _ l l' _ _ _ => ?_⟩
    exact steady_pure fun _ _ _ _ => ⟨[], [], rfl, rfl, rfl, rfl, .nil⟩
  | @cons _ f name entity entity' body body' plan plan' ms ms' found pre bodies plans others =>
    obtain ⟨e, c, fs, projected, rest, rfl⟩ := assembleMembers_cons_ok made
    obtain ⟨e', c', fs', projected', rest', rfl⟩ := assembleMembers_cons_ok made'
    rw [ceilingOfMembers, Member.ceiling] at low low'
    obtain ⟨above, steady⟩ := plan.steady_assemble plans fit.1 fit'.1 (by omega) (by omega) new new'
      projected projected'
    obtain ⟨above', steady'⟩ := membersSteady_assemble ms others fit.2 fit'.2 (by omega) (by omega)
      row row' apart apart' above.1 above.2 rest rest'
    refine ⟨above', fun s s' v v' grounds grounds' here here' l l' hl hl' entities => ?_⟩
    rw [Expr.evalFields, Expr.evalFields]
    have lower : (Expr.lambda [entity] body).ceiling ≤ k := by omega
    have lower' : (Expr.lambda [entity'] body').ceiling ≤ k' := by omega
    have values := bodies hl hl' entities ⟨k, row, s, lower, apart, grounds, here, rfl⟩
      ⟨k', row', s', lower', apart', grounds', here', rfl⟩
    refine steady_bind (steady s s' grounds grounds' l l' hl hl' values)
      fun x x' i i' hi hi' akin => ?_
    have later := steady' s s' v v' grounds grounds' here here' i i' (IsTrans.trans _ _ _ hl hi)
      (IsTrans.trans _ _ _ hl' hi') (L.lasting _ _ _ _ _ _ _ _ hi hi' entities)
    refine steady_bind later fun ps ps' j j' hj hj' pairs => ?_
    obtain ⟨es, es', rfl, rfl, names, names', entries⟩ := pairs
    refine steady_pure fun g g' hg hg' => ?_
    refine ⟨(name, x) :: es, (name, x') :: es', rfl, rfl, ?_, ?_, .cons found ?_ ?_⟩
    · rw [List.map_cons, names]
      rfl
    · rw [List.map_cons, names']
      rfl
    · rw [FieldDecl.isProjected, pre]
      exact akin.lasts (IsTrans.trans _ _ _ hj hg) (IsTrans.trans _ _ _ hj' hg')
    · exact entries.lasts hg hg'

end

/-- The lambda of a request, once its plan is drawn. -/
theorem steady_assembling {plan plan' : Plan} {value value' : Expr Value} (k k' : Nat)
    {Q : Expr Value → Memory → Expr Value → Memory → Prop}
    (assembled : ∀ a a' b b' e e', L.later n a.memory → L.later n' a'.memory →
      plan.ceiling ≤ a.supply → plan'.ceiling ≤ a'.supply →
        runOn (plan.assemble value) a = (.ok e, b) → runOn (plan'.assemble value') a' = (.ok e', b') →
          Q (.lambda [u.schema.context] e) a.memory (.lambda [u'.schema.context] e') a'.memory) :
    Steady L.later n n' Q
      (do
        Making.passOver (max k plan.ceiling)
        return .lambda [u.schema.context] (← plan.assemble value))
      (do
        Making.passOver (max k' plan'.ceiling)
        return .lambda [u'.schema.context] (← plan'.assemble value')) := by
  refine steady_of_ok fun a a' ha ha' => ?_
  let b : Trail := { a with supply := max a.supply (max k plan.ceiling) }
  let b' : Trail := { a' with supply := max a'.supply (max k' plan'.ceiling) }
  obtain ⟨e, c, made, same⟩ := plan.assemble_total value b
  obtain ⟨e', c', made', same'⟩ := plan'.assemble_total value' b'
  refine ⟨.lambda [u.schema.context] e, .lambda [u'.schema.context] e', c, c',
    ⟨?_, same⟩, ⟨?_, same'⟩, ?_⟩
  · rw [runOn_bind_ok (show runOn (Making.passOver _) a = (.ok ⟨⟩, b) from rfl), runOn_bind_ok made]
    rfl
  · rw [runOn_bind_ok (show runOn (Making.passOver _) a' = (.ok ⟨⟩, b') from rfl),
      runOn_bind_ok made']
    rfl
  have above : plan.ceiling ≤ b.supply := by
    show plan.ceiling ≤ max a.supply (max k plan.ceiling)
    omega
  have above' : plan'.ceiling ≤ b'.supply := by
    show plan'.ceiling ≤ max a'.supply (max k' plan'.ceiling)
    omega
  exact assembled b b' c c' e e' ha ha' above above' made made'

/-- What is left to do once a plan is drawn. -/
theorem QueryDecl.steady_finish {q : QueryDecl} {paging : Paging}
    (checked : paging.check q = .ok ()) {plan plan' : Plan}
    (alike : PlansAlike L u u' context n n' q.host q.isList plan plan') (fits : plan.Fits u)
    (fits' : plan'.Fits u') {body body' : Expr Value}
    (evaluates : Steady L.later n n' (L.alike q.host q.isList) (u.evaluateBody body context)
      (u'.evaluateBody body' context)) (k k' : Nat) :
    Steady L.later n n' (fun e l e' l' => Steady L.later l l'
        (fun v i v' i' =>
          Akin L i i' (!(w.schema.typeOf q.host).isScalar) q.host q.isList v v')
        (u.evaluate e context) (u'.evaluate e' context))
      (do
        Making.passOver (max k plan.ceiling)
        return .lambda [u.schema.context] (← plan.assemble (paging.apply body)))
      (do
        Making.passOver (max k' plan'.ceiling)
        return .lambda [u'.schema.context] (← plan'.assemble (paging.apply body'))) := by
  refine steady_assembling sealed sealed' orderly orderly' hu hu' hn hn' k k'
    fun a a' b b' e e' ha ha' above above' made made' => ?_
  obtain ⟨_, steady⟩ := plan.steady_assemble sealed sealed' orderly orderly' hu hu' hn hn' alike fits
    fits' (Nat.le_refl _) (Nat.le_refl _) above above' made made'
  refine steady _ _ (grounds_context u context _) (grounds_context u' context _) _ _ ha ha' ?_
  rw [Paging.eval_apply u.host checked, Paging.eval_apply u'.host checked]
  refine steady_bind (evaluates.onwards ha ha') fun v v' l l' hl hl' alike => ?_
  refine Paging.steady_cut hu hu' ?_ ?_ checked alike
  · exact IsTrans.trans _ _ _ hn (IsTrans.trans _ _ _ ha hl)
  · exact IsTrans.trans _ _ _ hn' (IsTrans.trans _ _ _ ha' hl')

variable {asked : String → Prop} (pure : w.Pure L context asked)

include pure

/-- Two requests for one query, which may want different elements of it, draw plans of one shape. -/
theorem QueryDecl.steady_composeWith {q : QueryDecl} (declared : q ∈ w.schema.queries)
    (isAsked : asked q.name) (args : List (String × Value)) (selections : List Selected)
    {paging paging' : Paging}
    (checks : Matches (fun _ _ => paging.check q = .ok () ∧ paging'.check q = .ok ())
      (paging.check q) (paging'.check q))
    {Q : Expr Value → Memory → Expr Value → Memory → Prop}
    (finish : ∀ {l l' body body' plan plan'}, paging.check q = .ok () → paging'.check q = .ok () →
      L.later n l → L.later n' l' → PlansAlike L u u' context l l' q.host q.isList plan plan' →
        plan.Fits u → plan'.Fits u' → Steady L.later l l' (L.alike q.host q.isList)
            (u.evaluateBody body context) (u'.evaluateBody body' context) →
          ∀ k k', Steady L.later l l' Q
            (do
              Making.passOver (max k plan.ceiling)
              return .lambda [u.schema.context] (← plan.assemble (paging.apply body)))
            (do
              Making.passOver (max k' plan'.ceiling)
              return .lambda [u'.schema.context] (← plan'.assemble (paging'.apply body')))) :
    Steady L.later n n' Q (q.compose u args selections paging)
      (q.compose u' args selections paging') := by
  unfold compose
  refine steady_bind (Q := fun _ _ _ _ => paging.check q = .ok () ∧ paging'.check q = .ok ())
    (steady_outcome fun _ _ _ _ => checks) fun _ _ k k' hk hk' checked => ?_
  have queried := (pure.query q declared isAsked args hu hu').onwards (IsTrans.trans _ _ _ hn hk)
    (IsTrans.trans _ _ _ hn' hk')
  refine steady_bind queried fun body body' j j' hj hj' evaluates => ?_
  dsimp only
  rw [hu.typeOf, hu'.typeOf]
  refine steady_guard Iff.rfl rfl fun bare _ => ?_
  have none : (w.schema.typeOf q.host).isScalar = true → selections = [] := by
    simpa using bare
  have longer := IsTrans.trans _ _ _ hn (IsTrans.trans _ _ _ hk hj)
  have longer' := IsTrans.trans _ _ _ hn' (IsTrans.trans _ _ _ hk' hj')
  refine steady_bind_of_run (Q := fun plan l plan' l' =>
      PlansAlike L u u' context l l' q.host q.isList plan plan')
    (Compose.steady_planWith u u' context _ fun entity =>
      Compose.steady_members pure hu hu' (typeOf_mem entity) [] selections longer longer')
    fun t t' l l' plan plan' drawn drawn' hl hl' alike => ?_
  have fits : plan.Fits u := (Compose.plan_ok drawn none).fits fun entity => by
    rw [hu.types]
    exact typeOf_mem entity
  have fits' : plan'.Fits u' := (Compose.plan_ok drawn' none).fits fun entity => by
    rw [hu'.types]
    exact typeOf_mem entity
  have rest := finish checked.1 checked.2
    (IsTrans.trans _ _ _ hk (IsTrans.trans _ _ _ hj hl))
    (IsTrans.trans _ _ _ hk' (IsTrans.trans _ _ _ hj' hl')) alike fits fits'
    (evaluates.onwards hl hl') (Expr.lambda [u.schema.context] (paging.apply body)).ceiling
    (Expr.lambda [u'.schema.context] (paging'.apply body')).ceiling
  exact rest l l' (Std.Refl.refl _) (Std.Refl.refl _)

theorem QueryDecl.steady_compose {q : QueryDecl} (declared : q ∈ w.schema.queries)
    (isAsked : asked q.name) (args : List (String × Value)) (selections : List Selected)
    (paging : Paging) :
    Steady L.later n n' (fun e k e' k' => Steady L.later k k'
        (fun v l v' l' =>
          Akin L l l' (!(w.schema.typeOf q.host).isScalar) q.host q.isList v v')
        (u.evaluate e context) (u'.evaluate e' context))
      (q.compose u args selections paging) (q.compose u' args selections paging) := by
  refine steady_composeWith sealed sealed' orderly orderly' hu hu' hn hn' pure declared isAsked args
    selections (matches_refl _ fun _ checked => ⟨checked, checked⟩)
    fun checked _ hl hl' alike fits fits' evaluates k k' => ?_
  exact steady_finish sealed sealed' orderly orderly' hu hu' (IsTrans.trans _ _ _ hn hl)
    (IsTrans.trans _ _ _ hn' hl') checked alike fits fits' evaluates k k'

/-- Requests to a pure application cannot tell what was done before. -/
theorem World.steady_runQuery {name : String} (isAsked : asked name)
    (args : List (String × Value)) (selections : List Selected) (paging : Paging) :
    Steady L.later n n' (fun v k v' k' => ∃ q ∈ w.schema.queries, q.name = name
        ∧ Akin L k k' (!(w.schema.typeOf q.host).isScalar) q.host q.isList v v')
      (u.runQuery context name args selections paging)
      (u'.runQuery context name args selections paging) := by
  unfold runQuery
  rw [hu.query, hu'.query]
  refine steady_bind (Q := fun q _ q' _ => q = q' ∧ w.query name = .ok q)
    (steady_outcome fun _ _ _ _ => matches_refl _ fun q found => ⟨rfl, found⟩)
    fun q q' k k' hk hk' same => ?_
  obtain ⟨rfl, found⟩ := same
  obtain ⟨declared, rfl⟩ := mem_of_query found
  have here := IsTrans.trans _ _ _ hn hk
  have here' := IsTrans.trans _ _ _ hn' hk'
  refine steady_bind (q.steady_compose sealed sealed' orderly orderly' hu hu' here here' pure declared
    isAsked args selections paging) fun e e' l l' hl hl' evaluates => ?_
  refine steady_bind evaluates fun v v' i i' hi hi' akin => ?_
  rw [hu.typeOf, hu'.typeOf]
  refine (Materialize.steady_value pure selections q.isList hu hu'
    (IsTrans.trans _ _ _ here (IsTrans.trans _ _ _ hl hi))
    (IsTrans.trans _ _ _ here' (IsTrans.trans _ _ _ hl' hi')) akin).mono fun v j v' j' _ _ akin => ?_
  exact ⟨q, declared, rfl, akin⟩

end

end EntityGraph
