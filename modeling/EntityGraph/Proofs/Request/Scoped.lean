import EntityGraph.Proofs.Eval.Scoped
import EntityGraph.Proofs.Request.Composed

/-!
# Composed requests are closed

The lambdas of a query and of its fields are taken apart, and their bodies are put together again
under new lambdas over rows, with rows in the place of entities. Of a body only the context and the
entity may be open. So beneath a row only the context and that row are, and each row is declared by
the lambda that it was made for. What stands outside of that lambda, as the argument that it is
applied to or the sequence that it runs over, was composed for the row further out.

Inside a body the entity and the context may well be declared once more. Replacing the entity then
also replaces uses of that other declaration, but what it puts there is the row.
-/

namespace EntityGraph

mutual

/-- Whether the lambdas whose bodies are in a plan leave nothing open. -/
def Plan.isClosed (context : Param) : Plan → Bool
  | .plain => true
  | .records _ _ ms => areClosed context ms

/-- Whether the lambda whose body is in a member, and those beneath it, leave nothing open. -/
def Member.isClosed (context : Param) : Member → Bool
  | .mk _ entity body plan =>
    (Expr.lambda [context, entity] body).openParams.isEmpty && plan.isClosed context

/-- Whether the lambdas whose bodies are in members leave nothing open. -/
def areClosed (context : Param) : List Member → Bool
  | [] => true
  | m :: ms => m.isClosed context && areClosed context ms

end

/-- What a lambda that leaves nothing open uses is declared by it. -/
theorem Expr.mem_of_closed_lambda {ps : List Param} {b : Expr Value}
    (closed : (Expr.lambda ps b).openParams = []) {q : Param} (h : q ∈ b.openParams) : q ∈ ps := by
  by_contra undeclared
  have still := Expr.mem_openParams_lambda.2 ⟨h, undeclared⟩
  rw [closed] at still
  cases still

theorem Paging.openParams_apply (p : Paging) (e : Expr Value) :
    (p.apply e).openParams = e.openParams := by
  have bounded : ∀ (op : SeqOp) (bound : Value) (e : Expr Value),
      (if bound.isNone then e else .seq op e [.lit bound]).openParams = e.openParams := by
    intro op bound e
    split
    · rfl
    · simp [Expr.openParams, Expr.openParamsList]
  rw [Paging.apply, bounded, bounded]

theorem mem_openParams_guarded {row q : Param} {record value : Expr Value}
    (h : q ∈ (guarded row record value).openParams) :
    q ∈ value.openParams ∨ (q ∈ record.openParams ∧ q ≠ row) := by
  simp only [guarded, Expr.openParams, Expr.openParamsList, List.mem_append, List.mem_filter] at h
  grind

mutual

/-- The projection of a value leaves open what the value does, and the context. -/
theorem Plan.mem_openParams_assemble {context : Param} (plan : Plan)
    (closed : plan.isClosed context = true) {value e : Expr Value} {a b : Trail}
    (made : runOn (plan.assemble value) a = (.ok e, b)) {q : Param} (h : q ∈ e.openParams) :
    q ∈ value.openParams ∨ q = context := by
  cases plan with
  | plain =>
    cases made
    exact .inl h
  | records isList typeName ms =>
    obtain ⟨fs, members, rfl⟩ := Plan.assemble_records_ok made
    have beneath := mem_openParamsFields_assemble ms closed members (q := q)
    cases isList with
    | true =>
      rcases List.mem_append.1 h with h | h
      · exact .inl h
      · simp only [Expr.openParamsList, List.append_nil] at h
        obtain ⟨inRecord, other⟩ := Expr.mem_openParams_lambda.1 h
        exact .inr ((beneath inRecord).resolve_left (by simpa using other))
    | false =>
      rcases mem_openParams_guarded h with h | ⟨inRecord, other⟩
      · exact .inl h
      · exact .inr ((beneath inRecord).resolve_left other)

/-- A member for a row leaves open the row and the context only. -/
theorem Member.mem_openParams_assemble {context : Param} (m : Member)
    (closed : m.isClosed context = true) {row : Param} {k : Value} {e : Expr Value} {a b : Trail}
    (made : runOn (m.assemble row) a = (.ok (k, e), b)) {q : Param} (h : q ∈ e.openParams) :
    q = row ∨ q = context := by
  obtain ⟨name, entity, body, plan⟩ := m
  rw [Member.assemble] at made
  obtain ⟨e', c, projected, made⟩ := bind_eq_ok made
  cases made
  rw [Member.isClosed, Bool.and_eq_true, List.isEmpty_iff] at closed
  rcases plan.mem_openParams_assemble closed.2 projected h with inValue | isContext
  · rcases Expr.mem_openParams_substitute body inValue with ⟨inBody, stays⟩ | ⟨p, e', replaced, h⟩
    · have other : q ≠ entity := by simpa using stays
      have own := Expr.mem_of_closed_lambda closed.1 inBody
      exact .inr (by simpa [other] using own)
    · split at replaced
      · cases replaced
        exact .inl (by simpa [Expr.openParams] using h)
      · cases replaced
  · exact .inr isContext

theorem mem_openParamsFields_assemble {context : Param} (ms : List Member)
    (closed : areClosed context ms = true) {row : Param} {fs : List (Value × Expr Value)}
    {a b : Trail} (made : runOn (assembleMembers row ms) a = (.ok fs, b)) {q : Param}
    (h : q ∈ Expr.openParamsFields fs) : q = row ∨ q = context := by
  cases ms with
  | nil =>
    cases made
    cases h
  | cons m ms =>
    rw [assembleMembers] at made
    obtain ⟨⟨k, e⟩, c, first, made⟩ := bind_eq_ok made
    obtain ⟨fs', d, others, made⟩ := bind_eq_ok made
    cases made
    rw [areClosed, Bool.and_eq_true] at closed
    rcases List.mem_append.1 h with h | h
    · exact m.mem_openParams_assemble closed.1 first h
    · exact mem_openParamsFields_assemble ms closed.2 others h

end

namespace QueryDecl

/-- The composed lambda of a request has the context for its only parameter and leaves nothing open, if
no lambda that contributes to it does: neither that of the query, nor those of the selected fields.
Evaluating it on any context then finds no parameter unbound. -/
theorem composed_closed {w : World} {q : QueryDecl} {args : List (String × Value)}
    {selections : List Selected} {paging : Paging} {e : Expr Value} {a b : Trail}
    (composed : runOn (q.compose w args selections paging) a = (.ok e, b)) :
    ∃ body plan m m', LendsQuery w q args body a m
      ∧ Plans w (w.schema.typeOf q.host) q.isList selections plan m m'
      ∧ ((Expr.lambda [w.schema.context] body).openParams = [] →
        plan.isClosed w.schema.context = true →
          (∃ e', e = .lambda [w.schema.context] e') ∧ e.openParams = []
            ∧ ∀ context, NeverUnbound (w.evaluate e context)) := by
  obtain ⟨body, plan, m, m', -, lends, plans, m'', e', -, made, rfl⟩ := compose_ok composed
  refine ⟨body, plan, m, m', lends, plans, fun closed contributed => ?_⟩
  have closes : (Expr.lambda [w.schema.context] e').openParams = [] := by
    refine List.eq_nil_iff_forall_not_mem.2 fun p hp => ?_
    obtain ⟨inside, undeclared⟩ := Expr.mem_openParams_lambda.1 hp
    rcases plan.mem_openParams_assemble contributed made inside with inBody | isContext
    · rw [Paging.openParams_apply] at inBody
      exact undeclared (Expr.mem_of_closed_lambda closed inBody)
    · exact undeclared (by simp [isContext])
  exact ⟨⟨e', rfl⟩, closes, fun context => neverUnbound_applyLambda w closes [context]⟩

end QueryDecl

/-! ## Schemas of closed lambdas -/

/-- Whether a field is declared with a lambda that leaves nothing open, or without one. -/
def FieldDecl.isClosed (f : FieldDecl) : Bool :=
  match f.source with
  | .fixed e => e.openParams.isEmpty
  | .post _ => true
  | .factory _ => false

theorem Lends.isClosed {w : World} {t : TypeDecl} {f : FieldDecl} {args : List (String × Value)}
    {entity : Param} {body : Expr Value} {a b : Trail} (h : Lends w t f args entity body a b)
    (closed : f.isClosed = true) :
    (Expr.lambda [w.schema.context, entity] body).openParams.isEmpty = true := by
  obtain ⟨bound, m, _, gives⟩ := h
  unfold FieldDecl.isClosed at closed
  unfold FieldDecl.expression at gives
  split at gives
  · next e source =>
    cases gives
    simpa only [source] using closed
  · next g source => simp [source] at closed
  · cases gives

/-- All fields of a schema are closed. -/
def World.isClosed (w : World) : Bool := w.schema.types.all fun t => t.fields.all (·.isClosed)

mutual

/-- Where all fields are closed every plan is. -/
theorem Plans.isClosed {w : World} (fields : w.isClosed = true) {t : TypeDecl} {isList : Bool}
    {selections : List Selected} {plan : Plan} {a b : Trail}
    (h : Plans w t isList selections plan a b)
    (declared : t.isScalar = false → t ∈ w.schema.types) :
    plan.isClosed w.schema.context = true := by
  cases h with
  | scalar => rfl
  | entity entity selected members => exact members.areClosed fields (declared entity)

theorem PlansMembers.areClosed {w : World} (fields : w.isClosed = true) {t : TypeDecl}
    {seen : List String} {selections : List Selected} {ms : List Member} {a b : Trail}
    (h : PlansMembers w t seen selections ms a b) (declared : t ∈ w.schema.types) :
    EntityGraph.areClosed w.schema.context ms = true := by
  cases h with
  | nil => rfl
  | passed found passed later => exact later.areClosed fields declared
  | taken found pre new lends beneath later =>
    have own := lends.isClosed (List.all_eq_true.1 (List.all_eq_true.1 fields t declared) _
      (List.mem_of_find?_eq_some found))
    rw [EntityGraph.areClosed, Member.isClosed, own, beneath.isClosed fields typeOf_mem,
      later.areClosed fields declared]
    rfl

end

namespace QueryDecl

/-- A field whose lambda applies another one, which declares the entity once more. -/
theorem redeclared_entity_closed :
    let w := sample (.invoke (.lambda [sampleEntity] (.param sampleEntity)) [.lit (.int 1)])
    ∃ e b, runOn (sampleQuery.compose w [] [.field "value" [] []] .all) w.trail = (.ok e, b)
      ∧ e.openParams = [] ∧ ∀ context, NeverUnbound (w.evaluate e context) := by
  -- the schema itself is large, so only the facts about it that count are given to the proof
  have closes (w : World) (own : w.schema.context = ⟨0, "context"⟩) (fields : w.isClosed = true)
      (succeeds :
        (runOn (sampleQuery.compose w [] [.field "value" [] []] .all) w.trail).1.isOk = true) :
      ∃ e b, runOn (sampleQuery.compose w [] [.field "value" [] []] .all) w.trail = (.ok e, b)
        ∧ e.openParams = [] ∧ ∀ context, NeverUnbound (w.evaluate e context) := by
    cases composed : runOn (sampleQuery.compose w [] [.field "value" [] []] .all) w.trail with
    | mk r b =>
      cases r with
      | error f =>
        rw [composed] at succeeds
        cases succeeds
      | ok e =>
        obtain ⟨body, plan, m, m', ⟨_, _, _, gives⟩, plans, closes⟩ := composed_closed composed
        obtain ⟨-, rfl⟩ := Expr.lambda.inj (Except.ok.inj (Prod.ext_iff.1 gives).1)
        exact ⟨e, b, rfl, (closes rfl (plans.isClosed fields typeOf_mem)).2⟩
  exact closes _ (by decide +kernel) (by decide +kernel) (by decide +kernel)

end QueryDecl

end EntityGraph
