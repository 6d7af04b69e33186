import EntityGraph.Proofs.Eval.Trusting
import EntityGraph.Proofs.Request.Steady
import EntityGraph.Proofs.Schema.Lambdas

/-!
# Assertions are the application's

The library asserts what it relies on: that lambdas are over the context, that shapes of arguments
have types, that record classes have the members they are given, that functions of elements take one
parameter. Each of these is settled elsewhere, when a schema is declared or completed, so a request
meets no such fault of its own. One that it does meet comes of the application: of a function that
it gave, or of evaluating the body of one of its lambdas.

This module follows the faults of a request as far as the composed lambda is evaluated: a fault is
one that the application incurs, or it is not an assertion.
-/

set_option linter.unusedSectionVars false

namespace EntityGraph

/-- Whether a fault is an assertion of the library about itself, or the fault of looking something
up under a key that is not there. -/
def Fault.isInternal : Fault → Bool
  | host kind _ => kind == .missingKey
  | elementLambda _ | badShape _ | postExpression _ | postValue _ | recordMembers .. | notPostField ..
  | noProjection _ | fieldExpression .. | queryExpression .. | selectedUnknown .. => true
  | _ => false

theorem Fault.IsMundane.not_internal {e : Fault} (h : e.IsMundane) : e.isInternal = false := by
  cases e with
  | host kind text => simpa [isInternal] using h.1
  | tree | captureArity | proxyTruth | proxyIteration | wireValue | queryLambda | fieldLambda => rfl
  | _ => cases h

/-- The library's word on a request is no assertion. -/
theorem Fault.not_internal_of_kind {e : Fault}
    (h : e.kind = .compilation ∨ e.kind = .invalidArgument) : e.isInternal = false := by
  cases e with
  | host kind text =>
    have same : kind = .compilation ∨ kind = .invalidArgument := h
    rcases same with rfl | rfl <;> rfl
  | elementLambda | badShape | postExpression | postValue | recordMembers | notPostField
  | noProjection | fieldExpression | queryExpression | selectedUnknown => simp [kind] at h
  | _ => rfl

namespace World

/-- Whether evaluating an expression in a scope gives a fault. If the lambda that the application
lent is well formed, evaluating gives the fault also where no function of elements is looked at
before it is applied. -/
def Faults (w : World) (lent body : Expr Value) (s : Scope Value) (e : Fault) : Prop :=
  ∃ a b, runOn (body.eval w.host s) a = (.error e, b)
    ∧ (lent.isWellFormed = true → runOn (Trusting.eval w.host body s) a = (.error e, b))

/-- Whether a fault of a request is the application's own: a function that composing calls raises it,
or one that computes a field after the query, or it comes up in evaluating the body of a lambda that
the application lends, for a query or for a field with a row in the place of the entity. -/
inductive Incurs (w : World) (context : Value) (e : Fault) : Prop
  | raises (raises : w.Raises e) : Incurs w context e
  | post {t : TypeDecl} {f : FieldDecl} {g : Value} {a b : Trail} (declared : t ∈ w.schema.types)
      (member : f ∈ t.fields) (source : f.source = .post g)
      (fails : runOn (Value.call w g []) a = (.error e, b)) : Incurs w context e
  | query {q : QueryDecl} {args : List (String × Value)} {body : Expr Value} {a b : Trail}
      (declared : q ∈ w.schema.queries) (lends : LendsQuery w q args body a b)
      (fails : w.Faults body body (.bind w.schema.context context .empty) e) : Incurs w context e
  | field {t : TypeDecl} {f : FieldDecl} {args : List (String × Value)} {entity row : Param}
      {body : Expr Value} {a b : Trail} {n : Nat} {s : Scope Value} {v : Value}
      (declared : t ∈ w.schema.types) (member : f ∈ t.fields)
      (lends : Lends w t f args entity body a b)
      (low : (Expr.lambda [entity] body).ceiling ≤ n) (new : n < row.id)
      (grounds : Grounds w context n s) (here : s.lookup? row = some v)
      (fails : w.Faults body
        (body.substitute fun p => if p == entity then some (.param row) else none) s e) :
      Incurs w context e

/-- Whether a fault is no assertion, or the application's own. -/
def Admits (w : World) (context : Value) (e : Fault) : Prop :=
  e.isInternal = true → w.Incurs context e

variable {w : World} {context : Value}

theorem admits_of_not_internal {e : Fault} (h : e.isInternal = false) : w.Admits context e := by
  intro internal
  rw [h] at internal
  cases internal

theorem admits_of_mundane (e : Fault) (h : e.IsMundane) : w.Admits context e :=
  admits_of_not_internal h.not_internal

theorem admits_of_raises (e : Fault) (h : w.Raises e) : w.Admits context e := fun _ => .raises h

end World

variable {w : World} {context : Value}

/-! ## Asking for lambdas -/

theorem ArgShape.failsWith_admits {shape : ArgShape} (typed : shape.HasTypes w)
    (raw : List (String × Value)) :
    FailsWith (w.Admits context) (shape.bind w w.schema.scalars raw) := by
  refine failsWith_bind World.admits_of_mundane World.admits_of_raises (fun _ _ => nofun) ?_ ?_
  · obtain ⟨types, known⟩ := typed
    rw [known]
    exact faultsIn_ok types
  · intro types _
    unfold check
    dsimp only
    split
    · exact faultsIn_error nofun
    · split
      · exact faultsIn_error nofun
      · exact faultsIn_ok _

namespace Compose

theorem failsWith_queryValue (lambdas : LambdasOver w) (typed : ShapesTyped w) {q : QueryDecl}
    (declared : q ∈ w.schema.queries) (args : List (String × Value)) :
    FailsWith (w.Admits context) (queryValue w q args) := by
  refine failsWith_then (ArgShape.failsWith_admits (typed.queries q declared) args) fun bound => ?_
  refine failsWith_bind ?_ fun e a b gives => ?_
  · exact QueryDecl.failsWith_expression World.admits_of_mundane World.admits_of_raises declared bound
  · obtain ⟨body, rfl⟩ := QueryDecl.expression_ok lambdas declared gives
    refine failsWith_ite (fun _ => failsWith_pure _) fun other => ?_
    exact absurd (beq_self_eq_true _) other

theorem failsWith_lend (lambdas : LambdasOver w) (typed : ShapesTyped w) {t : TypeDecl}
    {f : FieldDecl} (declared : t ∈ w.schema.types) (member : f ∈ t.fields) (pre : f.isPost = false)
    (args : List (String × Value)) : FailsWith (w.Admits context) (lend w t f args) := by
  refine failsWith_then (ArgShape.failsWith_admits (typed.fields t declared f member) args)
    fun bound => ?_
  refine failsWith_bind ?_ fun e a b gives => ?_
  · refine FieldDecl.failsWith_expression World.admits_of_mundane World.admits_of_raises declared
      member (fun post => ?_) t.name bound
    rw [pre] at post
    cases post
  · obtain ⟨entity, body, rfl⟩ := FieldDecl.expression_ok lambdas declared member gives
    refine failsWith_ite (fun _ => ?_) fun other => absurd (beq_self_eq_true _) other
    refine failsWith_then (failsWith_outcome ?_) fun _ => failsWith_pure _
    refine faultsIn_bind (fun e fails => ?_) fun _ _ => faultsIn_ok _
    exact World.admits_of_mundane e (faultsIn_ofTree _ e fails)

end Compose

/-- Composing asserts nothing that does not hold. -/
theorem QueryDecl.compose_admits (reached : w.IsReached) (completed : w.schema.completed = true)
    {q : QueryDecl} (declared : q ∈ w.schema.queries) (args : List (String × Value))
    (selections : List Selected) (paging : Paging) :
    FailsWith (w.Admits context) (q.compose w args selections paging) := by
  have lambdas := reached.lambdasOver
  have typed := reached.shapesTyped completed
  refine failsWith_compose (reached.sealed completed) (fun e h => ?_) (fun e h => ?_)
    (Compose.failsWith_queryValue lambdas typed declared args) (fun t ht f hf pre args => ?_)
    selections paging
  · exact World.admits_of_not_internal (Fault.not_internal_of_kind (.inl h))
  · exact World.admits_of_not_internal (Fault.not_internal_of_kind (.inr h))
  · exact Compose.failsWith_lend lambdas typed ht hf pre args

/-! ## Evaluating what was composed

What composing adds to the lambdas it was lent are conditions on missing values, loops over elements
and records, and none of these fails but where there are no elements. -/

section

variable {P : Fault → Prop} (mundane : ∀ e, e.IsMundane → P e) (sealed : Sealed w)
  (orderly : Orderly w.schema.types)
  (bodies : ∀ {t f args entity body a b}, t ∈ w.schema.types → f ∈ t.fields →
    Lends w t f args entity body a b → ∀ {v x}, Computes w context entity body v x → FailsWith P x)

theorem failsWith_elements {α : Type} (mundane : ∀ e, e.IsMundane → P e) (v : Value)
    {f : List Value → Making α} (rest : ∀ vs, FailsWith P (f vs)) :
    FailsWith P (do f (← Value.elements (← Making.now w) v)) := by
  refine failsWith_then (failsWith_now w) fun now => ?_
  refine failsWith_then (failsWith_outcome fun e fails => ?_) rest
  exact mundane e (Value.faultsIn_elements now v e fails)

include mundane in
theorem Paging.failsWith_cut (p : Paging) (v : Value) : FailsWith P (p.cut w v) := by
  have one (cut : Nat → List Value → List Value) (bound v : Value) :
      FailsWith P (cutOne w cut bound v) := by
    unfold cutOne
    split
    · refine failsWith_ite (fun _ => failsWith_pure _) fun _ => ?_
      exact failsWith_elements mundane v fun vs => failsWith_pure _
    · exact failsWith_pure _
  exact failsWith_then (one List.drop p.offset v) fun u => one List.take p.limit u

include sealed orderly in
/-- Record classes take the members of plans. -/
theorem failsWith_record {isList : Bool} {name : String} {ms : List Member}
    (fits : (Plan.records isList name ms).Fits w) {row : Param} {fs : List (Value × Expr Value)}
    {a b : Trail} (made : runOn (assembleMembers row ms) a = (.ok fs, b)) {s : Scope Value}
    {v : Value} (here : s.lookup? row = some v)
    (members : FailsWith P (Expr.evalFields w.host fs s)) :
    FailsWith P ((Expr.record (.type (.record name)) fs).eval w.host s) := by
  obtain ⟨⟨t, declared, entity, rfl, nodup, known⟩, fit⟩ := fits
  refine failsWith_bind members fun pairs c d run => ?_
  obtain ⟨es, rfl, entries⟩ := membersProject sealed orderly ms fit made here run
  rw [← entries.names] at nodup known
  exact failsWith_total fun a =>
    ⟨_, _, runOn_call_record sealed orderly declared entity nodup known a⟩

include mundane sealed orderly bodies

mutual

/-- A projection fails like the value that is projected, or like the body of a member. -/
theorem Plans.failsWith_assemble {t : TypeDecl} {isList : Bool} {ss : List Selected} {plan : Plan}
    {c d : Trail} (plans : Plans w t isList ss plan c d)
    (declared : t.isScalar = false → t ∈ w.schema.types) {k : Nat} (low : plan.ceiling ≤ k)
    {value e : Expr Value} {a b : Trail} (new : k ≤ a.supply)
    (made : runOn (plan.assemble value) a = (.ok e, b)) :
    k ≤ b.supply ∧ ∀ s, Grounds w context k s → FailsWith P (value.eval w.host s) →
      FailsWith P (e.eval w.host s) := by
  have fits := plans.fits declared
  cases plans with
  | scalar scalar =>
    cases made
    exact ⟨new, fun s _ values => values⟩
  | @entity _ _ _ ms _ _ entity selected members =>
    let row : Param := ⟨a.supply + 1, Schema.entityName t.name⟩
    obtain ⟨fs, assembled, rfl⟩ := Plan.assemble_records_ok made
    obtain ⟨above, entries⟩ := members.failsWith_assemble (declared entity) low
      (show k < row.id from Nat.lt_succ_of_le new) (Nat.le_succ_of_le new) assembled
    refine ⟨above, fun s grounds values => ?_⟩
    have record (v : Value) :
        FailsWith P ((Expr.record (.type (.record t.name)) fs).eval w.host (.bind row v s)) := by
      have here : (Scope.bind row v s).lookup? row = some v := by simp [Scope.lookup?]
      refine failsWith_record sealed orderly fits assembled here ?_
      exact entries _ v (grounds.bind (Nat.lt_succ_of_le new) v) here
    cases isList with
    | false =>
      show FailsWith P ((guarded row _ value).eval w.host s)
      rw [eval_guarded]
      refine failsWith_then values fun v => ?_
      exact failsWith_ite (fun _ => failsWith_pure _) fun _ => record v
    | true =>
      show FailsWith P ((Expr.seq .select value [.lambda [row] _]).eval w.host s)
      rw [eval_select]
      refine failsWith_then values fun v => ?_
      refine failsWith_ite (fun _ => failsWith_pure _) fun _ => ?_
      refine failsWith_elements mundane v fun vs => ?_
      exact failsWith_then (failsWith_mapM vs fun v _ => record v) fun _ => failsWith_pure _

theorem PlansMembers.failsWith_assemble {t : TypeDecl} {seen : List String} {ss : List Selected}
    {ms : List Member} {c d : Trail} (plans : PlansMembers w t seen ss ms c d)
    (declared : t ∈ w.schema.types) {k : Nat} (low : ceilingOfMembers ms ≤ k) {row : Param}
    (apart : k < row.id) {fs : List (Value × Expr Value)} {a b : Trail} (new : k ≤ a.supply)
    (made : runOn (assembleMembers row ms) a = (.ok fs, b)) :
    k ≤ b.supply ∧ ∀ s v, Grounds w context k s → s.lookup? row = some v →
      FailsWith P (Expr.evalFields w.host fs s) := by
  cases plans with
  | nil =>
    cases made
    exact ⟨new, fun s v _ _ => failsWith_pure _⟩
  | passed found passed later => exact later.failsWith_assemble declared low apart new made
  | @taken _ _ name _ _ _ entity body plan ms f _ _ _ _ found pre first lends beneath later =>
    obtain ⟨e, m, fs, projected, others, rfl⟩ := assembleMembers_cons_ok made
    rw [ceilingOfMembers, Member.ceiling] at low
    obtain ⟨above, projects⟩ :=
      beneath.failsWith_assemble typeOf_mem (by omega) new projected
    obtain ⟨above', entries⟩ :=
      later.failsWith_assemble declared (by omega) apart above others
    refine ⟨above', fun s v grounds here => ?_⟩
    have lower : (Expr.lambda [entity] body).ceiling ≤ k := by omega
    have value := bodies declared (List.mem_of_find?_eq_some found) lends
      ⟨k, row, s, lower, apart, grounds, here, rfl⟩
    rw [Expr.evalFields]
    refine failsWith_then (projects s grounds value) fun u => ?_
    exact failsWith_then (entries s v grounds here) fun pairs => failsWith_pure _

end

omit bodies

/-- Evaluating a composed request fails like the body of its query or of a selected field. -/
theorem QueryDecl.failsWith_evaluate {q : QueryDecl} {args : List (String × Value)}
    {selections : List Selected} {paging : Paging} {e : Expr Value} {a b : Trail}
    (composed : runOn (q.compose w args selections paging) a = (.ok e, b))
    (query : ∀ {body a b}, LendsQuery w q args body a b →
      FailsWith P (w.evaluateBody body context))
    (bodies : ∀ {t f args entity body a b}, t ∈ w.schema.types → f ∈ t.fields →
      Lends w t f args entity body a b → ∀ {v x}, Computes w context entity body v x →
        FailsWith P x) : FailsWith P (w.evaluate e context) := by
  obtain ⟨body, plan, m, m', checked, lends, plans, m'', e', new, made, rfl⟩ :=
    compose_ok composed
  obtain ⟨_, projects⟩ := plans.failsWith_assemble mundane sealed orderly bodies typeOf_mem
    (Nat.le_refl _) new made
  refine projects (.bind w.schema.context context .empty) ?_ ?_
  · exact fun p _ => by simp [Scope.lookup?]
  · rw [Paging.eval_apply w.host checked]
    exact failsWith_then (query lends) fun v => Paging.failsWith_cut mundane _ v

end

theorem World.Faults.of_run {lent body : Expr Value} {s : Scope Value}
    (same : lent.isWellFormed = true → body.isWellFormed = true) {e : Fault} {a b : Trail}
    (run : runOn (body.eval w.host s) a = (.error e, b)) : w.Faults lent body s e := by
  refine ⟨a, b, run, fun wellFormed => ?_⟩
  rw [← Expr.eval_trusting w.host body s (same wellFormed)]
  exact run

/-- Evaluating a composed request asserts nothing that does not hold. -/
theorem QueryDecl.evaluate_admits (reached : w.IsReached) (completed : w.schema.completed = true)
    {q : QueryDecl} (declared : q ∈ w.schema.queries) {args : List (String × Value)}
    {selections : List Selected} {paging : Paging} {e : Expr Value} {a b : Trail}
    (composed : runOn (q.compose w args selections paging) a = (.ok e, b)) :
    FailsWith (w.Admits context) (w.evaluate e context) := by
  refine failsWith_evaluate World.admits_of_mundane (reached.sealed completed) reached.orderly
    composed (fun lends a b e run _ => ?_) fun declared member lends v x computes a b e run _ => ?_
  · exact .query declared lends (.of_run (fun wellFormed => wellFormed) run)
  · obtain ⟨n, row, s, low, new, grounds, here, rfl⟩ := computes
    refine .field declared member lends low new grounds here (.of_run (fun wellFormed => ?_) run)
    rw [Expr.isWellFormed_substitute]
    · exact wellFormed
    · intro p e found
      split at found
      · cases found
        exact ⟨row, rfl⟩
      · cases found

end EntityGraph
