import EntityGraph.Proofs.Eval.Renaming
import EntityGraph.Proofs.Request.Planned
import EntityGraph.Proofs.Schema.Completed
import EntityGraph.Proofs.Value.Records
import EntityGraph.Request.Execute

/-!
# Composed requests resolve field by field

A request could be carried out without composing anything: evaluate the lambda of the query, take the
wanted elements, and make a record of each by evaluating, field by field, the lambda of the field on
the context and the entity. This is the resolver of this module, and evaluating the composed lambda
comes out like it.

The composed lambda holds the bodies of all these lambdas, with rows in the place of entities. A body
therefore meets more bindings than its lambda would give it, those of the rows further out. They do
no harm since rows occur in no lambda of the schema. What does harm is a lambda inside a body that
declares the entity once more: its own uses of that parameter are replaced along with the others.
-/

set_option linter.unusedSectionVars false

namespace EntityGraph

/-! ## The resolver -/

namespace Paging

/-- The elements that a bound leaves of a sequence. -/
def cutOne (w : World) (cut : Nat → List Value → List Value) (bound v : Value) : Making Value :=
  match bound with
  | .int n =>
    if v.isNone then return .none
    else do return .list (cut n.toNat (← Value.elements (← Making.now w) v))
  | _ => return v

/-- The wanted elements of a sequence; without bounds, any value as it is. -/
def cut (w : World) (p : Paging) (v : Value) : Making Value := do
  cutOne w List.take p.limit (← cutOne w List.drop p.offset v)

end Paging

mutual

/-- A value by its plan: itself, a record, or the records of its elements. A missing value stays
missing. -/
def Plan.resolve (w : World) (context : Value) : Plan → Value → Making Value
  | .plain, v => return v
  | .records isList typeName ms, v =>
    if v.isNone then return .none
    else if isList then do
      let vs ← Value.elements (← Making.now w) v
      return .list (← vs.mapM fun v => do
        return .record typeName (← resolveMembers w context v ms))
    else do return .record typeName (← resolveMembers w context v ms)

/-- The value of a member for an entity: that of its lambda, by its plan. -/
def Member.resolve (w : World) (context entity : Value) : Member → Making Value
  | .mk _ parameter body plan => do
    let function := Expr.lambda [w.schema.context, parameter] body
    plan.resolve w context (← function.applyLambda w.host [context, entity])

/-- The entries of a record for an entity. -/
def resolveMembers (w : World) (context entity : Value) :
    List Member → Making (List (String × Value))
  | [] => return []
  | m :: ms => do
    let v ← m.resolve w context entity
    return (m.name, v) :: (← resolveMembers w context entity ms)

end

/-- A request by its plan: the value of the query's lambda for the context, of which the wanted
elements resolve. -/
def World.resolve (w : World) (body : Expr Value) (paging : Paging) (plan : Plan)
    (context : Value) : Making Value := do
  let function := Expr.lambda [w.schema.context] body
  plan.resolve w context (← paging.cut w (← function.applyLambda w.host [context]))

/-! ## Where composing goes astray -/

/-- Whether a lambda inside an expression declares a parameter again and uses it. -/
def Expr.shadows (p : Param) (e : Expr Value) : Bool :=
  e.nodes.any fun node =>
    match node with
    | .lambda ps b => ps.contains p && (b.nodes.filterMap used?).contains p
    | _ => false

mutual

/-- Whether no body in a plan shadows its entity. -/
def Plan.isPlain : Plan → Bool
  | .plain => true
  | .records _ _ ms => arePlain ms

/-- Whether no body in a member shadows its entity. -/
def Member.isPlain : Member → Bool
  | .mk _ entity body plan => !body.shadows entity && plan.isPlain

/-- Whether no body in members shadows its entity. -/
def arePlain : List Member → Bool
  | [] => true
  | m :: ms => m.isPlain && arePlain ms

end

/-- What does not shadow a parameter uses it in no lambda that declares it. -/
theorem Expr.not_used_of_declared {p : Param} {e : Expr Value} (h : e.shadows p = false)
    {ps : List Param} {b : Expr Value} (hb : .lambda ps b ∈ e.nodes) (hp : p ∈ ps) :
    .param p ∉ b.nodes := by
  intro used
  have none := List.any_eq_false.1 h _ hb
  simp only [List.contains_iff_mem, hp, Bool.and_eq_true, List.mem_filterMap, true_and] at none
  exact none ⟨.param p, used, rfl⟩

/-! ## Rows are new -/

theorem le_foldl_max (ps : List Param) (n : Nat) :
    n ≤ ps.foldl (fun found p => max found p.id) n
      ∧ ∀ p ∈ ps, p.id ≤ ps.foldl (fun found p => max found p.id) n := by
  induction ps generalizing n with
  | nil => simp
  | cons q ps ih =>
    obtain ⟨start, rest⟩ := ih (max n q.id)
    rw [List.foldl_cons]
    refine ⟨by omega, fun p hp => ?_⟩
    rcases List.mem_cons.1 hp with rfl | hp
    · omega
    · exact rest p hp

theorem Expr.used_le_ceiling {e : Expr Value} {p : Param} (h : .param p ∈ e.nodes) :
    p.id ≤ e.ceiling := by
  refine (le_foldl_max _ 0).2 p (List.mem_flatMap.2 ⟨.param p, h, ?_⟩)
  simp [used?]

theorem Expr.declared_le_ceiling {e b : Expr Value} {ps : List Param} {p : Param}
    (h : .lambda ps b ∈ e.nodes) (hp : p ∈ ps) : p.id ≤ e.ceiling := by
  refine (le_foldl_max _ 0).2 p (List.mem_flatMap.2 ⟨.lambda ps b, h, ?_⟩)
  simp [declares, hp]

/-- Whether of the parameters up to a number a scope binds the context only. -/
def Grounds (w : World) (context : Value) (n : Nat) (s : Scope Value) : Prop :=
  ∀ p : Param, p.id ≤ n → s.lookup? p = if p = w.schema.context then some context else none

/-- Rows have greater numbers. -/
theorem Grounds.bind {w : World} {context : Value} {n : Nat} {s : Scope Value}
    (h : Grounds w context n s) {row : Param} (new : n < row.id) (v : Value) :
    Grounds w context n (.bind row v s) := by
  intro p hp
  have other : p ≠ row := by
    rintro rfl
    omega
  rw [Scope.lookup?, if_neg (by simpa using other)]
  exact h p hp

/-- A body with a row in the place of the entity, amid further rows, is a renaming of the body that
its lambda binds. -/
theorem Grounds.renames {w : World} {context : Value} {n : Nat} {s : Scope Value}
    (h : Grounds w context n s) {entity row : Param} {v : Value} {body : Expr Value}
    (low : (Expr.lambda [entity] body).ceiling ≤ n) (new : n < row.id) (here : s.lookup? row = some v)
    (plain : body.shadows entity = false) :
    Renames (fun p => if p = entity then row else p) body.nodes
      (.bind entity v (.bind w.schema.context context .empty)) s where
  values p hp := by
    by_cases same : p = entity
    · simp [same, here, Scope.lookup?]
    · have inLambda : Expr.param p ∈ (Expr.lambda [entity] body).nodes := by simp [Expr.nodes, hp]
      have := Expr.used_le_ceiling inLambda
      simp only [same, if_false, h p (by omega), Scope.lookup?, beq_iff_eq]
  own ps b hb p hp declared := by
    by_cases same : p = entity
    · subst same
      exact absurd hp (Expr.not_used_of_declared plain hb declared)
    · simp [same]
  uncaught ps b hb p hp undeclared := by
    by_cases same : p = entity
    · simp only [same, if_true]
      intro declared
      have inLambda : Expr.lambda ps b ∈ (Expr.lambda [entity] body).nodes := by
        simp [Expr.nodes, hb]
      have := Expr.declared_le_ceiling inLambda declared
      omega
    · simpa [same] using undeclared

/-! ## Plans fit the record classes -/

mutual

/-- Whether the records of a plan are of declared types, whose record classes take their members. -/
def Plan.Fits (w : World) : Plan → Prop
  | .plain => True
  | .records _ typeName ms =>
    (∃ t ∈ w.schema.types, t.isScalar = false ∧ t.name = typeName ∧ (ms.map (·.name)).Nodup
      ∧ ∀ n ∈ ms.map (·.name), n ∈ t.preFields.map (·.name)) ∧ MembersFit w ms

/-- Whether the records beneath a member are of declared types. -/
def Member.Fits (w : World) : Member → Prop
  | .mk _ _ _ plan => plan.Fits w

/-- Whether the records beneath members are of declared types. -/
def MembersFit (w : World) : List Member → Prop
  | [] => True
  | m :: ms => m.Fits w ∧ MembersFit w ms

end

mutual

theorem Plans.fits {w : World} {t : TypeDecl} {isList : Bool} {selections : List Selected}
    {plan : Plan} {a b : Trail} (h : Plans w t isList selections plan a b)
    (declared : t.isScalar = false → t ∈ w.schema.types) : plan.Fits w := by
  cases h with
  | scalar => trivial
  | entity entity selected members =>
    have names := members.names
    exact ⟨⟨t, declared entity, entity, rfl, names.1, names.2.2⟩, members.fits⟩

theorem PlansMembers.fits {w : World} {t : TypeDecl} {seen : List String}
    {selections : List Selected} {ms : List Member} {a b : Trail}
    (h : PlansMembers w t seen selections ms a b) : MembersFit w ms := by
  cases h with
  | nil => trivial
  | passed found passed later => exact later.fits
  | taken found pre new lends beneath later => exact ⟨beneath.fits typeOf_mem, later.fits⟩

end

/-! ## Assembled plans resolve -/

/-- The type under a name is the one declared with it. -/
theorem Orderly.find?_name {ts : List TypeDecl} (h : Orderly ts) {t : TypeDecl} (ht : t ∈ ts) :
    ts.find? (·.name == t.name) = some t := by
  cases found : ts.find? (·.name == t.name) with
  | none =>
    rw [List.find?_eq_none] at found
    exact absurd (beq_self_eq_true t.name) (found t ht)
  | some u =>
    have same : u.name = t.name := by simpa using List.find?_some found
    rw [List.inj_on_of_nodup_map h.names (List.mem_of_find?_eq_some found) ht same]

/-- A missing value is equal to the missing value, and nothing else is. -/
theorem BinaryOp.apply_eq_none (w : World) (v : Value) :
    BinaryOp.apply w .eq v .none = .ok (.bool v.isNone) := by
  cases v <;> rfl

/-- A guarded record is that of the value, unless the value is missing. -/
theorem eval_guarded (h : Host) (row : Param) (record value : Expr Value) (s : Scope Value) :
    (guarded row record value).eval h s
      = value.eval h s >>= fun v =>
        if v.isNone then pure .none else record.eval h (.bind row v s) := by
  have applied : (guarded row record value).eval h s
      = value.eval h s >>= fun v =>
        (Expr.cond (.binary .eq (.param row) .null) .null record).eval h (.bind row v s) := by
    show ((value.eval h s >>= fun v => pure [] >>= fun vs => pure (v :: vs)) >>= fun vs => _) = _
    simp only [bind_assoc, pure_bind]
    rfl
  rw [applied]
  congr 1
  funext v t
  have bound : (Scope.bind row v s).lookup row = .ok v := by
    simp [Scope.lookup, Scope.lookup?]
  have tested : runOn ((Expr.binary .eq (.param row) .null).eval h (.bind row v s)) t
      = (.ok (.bool v.isNone), t) := by
    show runOn ((liftM ((Scope.bind row v s).lookup row) : Making Value) >>= fun v =>
      (pure .none : Making Value) >>= fun u => Making.now h.world >>= fun now =>
        Value.own (BinaryOp.apply now .eq v u)) t = _
    rw [bound]
    show runOn (Value.own (BinaryOp.apply _ .eq v .none)) t = _
    rw [BinaryOp.apply_eq_none]
    rfl
  show runOn ((Expr.binary .eq (.param row) .null).eval h (.bind row v s) >>= _) t = runOn _ t
  rw [runOn_bind_ok tested]
  cases v.isNone <;> rfl

/-- Records of the elements of a sequence. -/
theorem eval_select (h : Host) (row : Param) (record value : Expr Value) (s : Scope Value) :
    (Expr.seq .select value [.lambda [row] record]).eval h s
      = value.eval h s >>= fun v =>
        if v.isNone then pure .none
        else do
          let vs ← Value.elements (← Making.now h.world) v
          return .list (← vs.mapM fun v => record.eval h (.bind row v s)) := rfl

section

variable {w : World} (sealed : Sealed w) (orderly : Orderly w.schema.types)

include sealed orderly

/-- Calling a record class with the members of a plan makes the record. -/
theorem runOn_call_record {t : TypeDecl} (declared : t ∈ w.schema.types)
    (entity : t.isScalar = false) {es : List (String × Value)} (nodup : (es.map (·.1)).Nodup)
    (known : ∀ n ∈ es.map (·.1), n ∈ t.preFields.map (·.name)) (a : Trail) :
    runOn (Value.call w (.type (.record t.name)) [.list (es.map Value.entryPair)]) a
      = (.ok (.record t.name es), a) := by
  obtain ⟨members, projection, names⟩ := sealed.records t declared entity
  have made := Value.makeRecord_eq (w.after a) (orderly.find?_name declared) projection nodup
    (by simpa [names] using known)
  show (Value.makeRecord (w.after a) t.name (.list (es.map Value.entryPair)), a) = _
  rw [made]

/-- A record with the members of a plan evaluates like the entries that they resolve to. -/
theorem alike_record {t : TypeDecl} (declared : t ∈ w.schema.types) (entity : t.isScalar = false)
    {ms : List Member} (nodup : (ms.map (·.name)).Nodup)
    (known : ∀ n ∈ ms.map (·.name), n ∈ t.preFields.map (·.name)) {fs : List (Value × Expr Value)}
    {s : Scope Value} {entries : Making (List (String × Value))}
    (members : ∀ {k : List Value → Making Value} {k' : List (String × Value) → Making Value},
      (∀ es, es.map (·.1) = ms.map (·.name) → Alike (k' es) (k (es.map Value.entryPair))) →
        Alike (entries >>= k') (Expr.evalFields w.host fs s >>= k)) :
    Alike (entries >>= fun es => pure (.record t.name es))
      ((Expr.record (.type (.record t.name)) fs).eval w.host s) := by
  refine members fun es names a a' ha => ?_
  rw [← names] at nodup known
  have called := runOn_call_record sealed orderly declared entity nodup known a'
  show _ = told (runOn (Value.call w _ _) a').1 ∧ Trail.Alike _ (runOn (Value.call w _ _) a').2
  rw [called]
  exact ⟨rfl, ha⟩

variable {context : Value} {n : Nat}

mutual

/-- The projection of a value evaluates like the value that resolves by the plan. -/
theorem Plan.alike_assemble (plan : Plan) (fits : plan.Fits w) (plain : plan.isPlain = true)
    (low : plan.ceiling ≤ n) {value e : Expr Value} {a b : Trail} (new : n ≤ a.supply)
    (made : runOn (plan.assemble value) a = (.ok e, b)) :
    n ≤ b.supply ∧ ∀ s, Grounds w context n s → ∀ x, Alike x (value.eval w.host s) →
      Alike (x >>= plan.resolve w context) (e.eval w.host s) := by
  cases plan with
  | plain =>
    cases made
    refine ⟨new, fun s _ x alike => ?_⟩
    have same : x >>= Plan.resolve w context .plain = x := bind_pure x
    rw [same]
    exact alike
  | records isList typeName ms =>
    obtain ⟨⟨t, declared, entity, rfl, nodup, known⟩, fit⟩ := fits
    let row : Param := ⟨a.supply + 1, Schema.entityName t.name⟩
    obtain ⟨fs, members, rfl⟩ := Plan.assemble_records_ok made
    obtain ⟨above, resolved⟩ := membersAlike_assemble ms fit plain low row
      (show n < a.supply + 1 by omega) (show n ≤ a.supply + 1 by omega) members
    refine ⟨above, fun s grounds x alike => ?_⟩
    have record : ∀ v, Alike (do return .record t.name (← resolveMembers w context v ms))
        ((Expr.record (.type (.record t.name)) fs).eval w.host (.bind row v s)) := by
      intro v
      refine alike_record sealed orderly declared entity nodup known fun {k k'} rest => ?_
      exact resolved (.bind row v s) v (grounds.bind (show n < a.supply + 1 by omega) v)
        (by simp [Scope.lookup?]) rest
    cases isList with
    | false =>
      show Alike _ ((guarded row _ value).eval w.host s)
      rw [eval_guarded]
      refine alike_bind alike fun v => ?_
      exact alike_ite (fun _ => alike_pure _) fun _ => record v
    | true =>
      refine alike_bind alike fun v => ?_
      refine alike_ite (fun _ => alike_pure _) fun _ => ?_
      refine alike_bind (alike_now w) fun now => ?_
      refine alike_bind (alike_outcome rfl) fun vs => ?_
      exact alike_bind (alike_mapM vs fun v _ => record v) fun _ => alike_pure _

/-- A member for a row evaluates like the member that resolves for the entity. -/
theorem Member.alike_assemble (m : Member) (fits : m.Fits w) (plain : m.isPlain = true)
    (low : m.ceiling ≤ n) {row : Param} (apart : n < row.id) {k : Value} {e : Expr Value}
    {a b : Trail} (new : n ≤ a.supply) (made : runOn (m.assemble row) a = (.ok (k, e), b)) :
    k = .str m.name ∧ n ≤ b.supply ∧ ∀ s v, Grounds w context n s → s.lookup? row = some v →
      Alike (m.resolve w context v) (e.eval w.host s) := by
  obtain ⟨name, entity, body, plan⟩ := m
  rw [Member.assemble] at made
  obtain ⟨e', c, projected, made⟩ := bind_eq_ok made
  cases made
  have lower : (Expr.lambda [entity] body).ceiling ≤ n ∧ plan.ceiling ≤ n := by
    rw [Member.ceiling] at low
    omega
  rw [Member.isPlain, Bool.and_eq_true] at plain
  obtain ⟨above, resolved⟩ := plan.alike_assemble fits plain.2 lower.2 new projected
  refine ⟨rfl, above, fun s v grounds here => ?_⟩
  refine resolved s grounds _ ?_
  rw [Expr.substitute_eq_rename]
  exact body.alike_eval (Value.alike_call w)
    (grounds.renames lower.1 apart here (by simpa using plain.1))

/-- Members for a row evaluate like the entries that resolve for the entity. -/
theorem membersAlike_assemble (ms : List Member) (fit : MembersFit w ms)
    (plain : arePlain ms = true) (low : ceilingOfMembers ms ≤ n) (row : Param)
    (apart : n < row.id) {fs : List (Value × Expr Value)} {a b : Trail} (new : n ≤ a.supply)
    (made : runOn (assembleMembers row ms) a = (.ok fs, b)) :
    n ≤ b.supply ∧ ∀ s v, Grounds w context n s → s.lookup? row = some v →
      ∀ {k : List Value → Making Value} {k' : List (String × Value) → Making Value},
        (∀ es, es.map (·.1) = ms.map (·.name) → Alike (k' es) (k (es.map Value.entryPair))) →
          Alike (resolveMembers w context v ms >>= k') (Expr.evalFields w.host fs s >>= k) := by
  cases ms with
  | nil =>
    cases made
    exact ⟨new, fun s v _ _ k k' rest => rest [] rfl⟩
  | cons m ms =>
    rw [assembleMembers] at made
    obtain ⟨⟨name, e⟩, c, first, made⟩ := bind_eq_ok made
    obtain ⟨fs', d, others, made⟩ := bind_eq_ok made
    cases made
    rw [ceilingOfMembers] at low
    rw [arePlain, Bool.and_eq_true] at plain
    obtain ⟨rfl, above, resolved⟩ := m.alike_assemble fit.1 plain.1 (by omega) apart new first
    obtain ⟨above', resolved'⟩ :=
      membersAlike_assemble ms fit.2 plain.2 (by omega) row apart above others
    refine ⟨above', fun s v grounds here k k' rest => ?_⟩
    rw [resolveMembers, Expr.evalFields]
    simp only [bind_assoc, pure_bind]
    refine alike_bind (resolved s v grounds here) fun u => ?_
    exact resolved' s v grounds here fun es names => rest ((m.name, u) :: es) (by simp [names])

end

end

end EntityGraph
