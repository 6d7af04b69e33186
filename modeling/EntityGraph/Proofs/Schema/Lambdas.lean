import EntityGraph.Proofs.Schema.Completed

/-!
# What a schema lends

Every lambda that a schema was declared with is over its context, and so is every lambda that a
factory of it gives: both pass the same check. In a complete schema every shape of arguments has
types, since completing asked for them, and nothing that follows takes them away.
-/

namespace EntityGraph

/-! ## Lambdas over the context -/

/-- Whether all lambdas that a schema was declared with are over its context. -/
structure LambdasOver (w : World) : Prop where
  fields : ∀ t ∈ w.schema.types, ∀ f ∈ t.fields, f.IsOver w.schema.context
  queries : ∀ q ∈ w.schema.queries, q.IsOver w.schema.context

theorem LambdasOver.changeType {w : World} (h : LambdasOver w) (i : Nat)
    {g : TypeDecl → TypeDecl}
    (fields : ∀ t, ∀ f ∈ (g t).fields, f ∈ t.fields ∨ f.IsOver w.schema.context) :
    LambdasOver (w.changeType i g) where
  fields t ht f hf := by
    obtain ht | ⟨u, hu, rfl⟩ := mem_modify ht
    · exact h.fields t ht f hf
    · rcases fields u f hf with old | ofContext
      · exact h.fields u (List.mem_of_getElem? hu) f old
      · exact ofContext
  queries := h.queries

theorem Addition.lambdasOver {w w' : World} (step : Addition w w') (h : LambdasOver w) :
    LambdasOver w' := by
  cases step with
  | number n => exact ⟨h.fields, h.queries⟩
  | adHoc host => exact ⟨h.fields, h.queries⟩
  | type t isOpen host name fields =>
    refine ⟨fun u hu f hf => ?_, h.queries⟩
    rcases List.mem_append.1 hu with hu | hu
    · exact h.fields u hu f hf
    · rw [List.mem_singleton.1 hu, fields] at hf
      cases hf
  | field i f isOpen name ofContext =>
    refine h.changeType i fun t g hg => ?_
    rcases List.mem_append.1 hg with old | new
    · exact .inl old
    · rw [List.mem_singleton.1 new]
      exact .inr ofContext
  | query q isOpen reserved name ofContext =>
    refine ⟨h.fields, fun p hp => ?_⟩
    rcases List.mem_append.1 hp with hp | hp
    · exact h.queries p hp
    · rw [List.mem_singleton.1 hp]
      exact ofContext

theorem Declaration.lambdasOver {w w' : World} (step : Declaration w w') (h : LambdasOver w) :
    LambdasOver w' := by
  cases step with
  | addition step => exact step.lambdasOver h
  | left t => exact ⟨h.fields, h.queries⟩
  | scalar e => exact ⟨h.fields, h.queries⟩

theorem Settlement.lambdasOver {w w' : World} (step : Settlement w w') (h : LambdasOver w) :
    LambdasOver w' := by
  cases step with
  | addition step => exact step.lambdasOver h
  | allow b => exact ⟨h.fields, h.queries⟩
  | arrangement step =>
    cases step with
    | adHoc host => exact ⟨h.fields, h.queries⟩
    | projection i p => exact h.changeType i fun t f hf => .inl hf
    | system sys => exact ⟨h.fields, h.queries⟩

theorem World.IsReached.lambdasOver {w : World} (h : w.IsReached) : LambdasOver w := by
  refine reached_induction ?_ ?_ ?_ h
  · exact fun _ _ _ => ⟨fun _ => nofun, fun _ => nofun⟩
  · exact fun _ _ step h => step.lambdasOver h
  · intro w u _ _ h settled
    have steps : Settles w u := keeps_run Schema.keeps_settle settled
    have lambdas : LambdasOver u := by
      clear settled
      induction steps with
      | refl => exact h
      | tail _ step ih => exact step.lambdasOver ih
    exact ⟨lambdas.fields, lambdas.queries⟩

/-- What a field of the query gives for bound arguments is a lambda over the context and an
entity. -/
theorem FieldDecl.expression_ok {w : World} (lambdas : LambdasOver w) {t : TypeDecl} {f : FieldDecl}
    (declared : t ∈ w.schema.types) (member : f ∈ t.fields) {typeName : String} {bound : Value}
    {e : Expr Value} {a b : Trail} (h : runOn (f.expression w typeName bound) a = (.ok e, b)) :
    ∃ entity body, e = .lambda [w.schema.context, entity] body := by
  unfold expression at h
  split at h
  · next e source =>
    cases h
    exact lambdas.fields t declared f member e source
  · obtain ⟨g, m, _, h⟩ := bind_eq_ok h
    exact Schema.captureField_ok h
  · cases h

/-- What a query gives for bound arguments is a lambda over the context. -/
theorem QueryDecl.expression_ok {w : World} (lambdas : LambdasOver w) {q : QueryDecl}
    (declared : q ∈ w.schema.queries) {bound : Value} {e : Expr Value} {a b : Trail}
    (h : runOn (q.expression w bound) a = (.ok e, b)) :
    ∃ body, e = .lambda [w.schema.context] body := by
  unfold expression at h
  split at h
  · next e source =>
    cases h
    exact lambdas.queries q declared e source
  · obtain ⟨g, m, _, h⟩ := bind_eq_ok h
    exact Schema.captureQuery_ok h

/-! ## Shapes with types -/

/-- Whether a shape describes arguments. -/
def ArgShape.HasTypes (w : World) (shape : ArgShape) : Prop := ∃ types, shape.types w = .ok types

/-- Only classes can lack the types of their fields, and they stay as they are. -/
theorem ArgShape.HasTypes.of_classes {w w' : World} {shape : ArgShape} (h : shape.HasTypes w)
    (classes : w'.classes = w.classes) : shape.HasTypes w' := by
  cases shape with
  | none => exact ⟨_, rfl⟩
  | defaults es => exact ⟨_, rfl⟩
  | fieldsOf c =>
    have same : hasFields w' c = hasFields w c := by
      unfold hasFields
      rw [classes]
    obtain ⟨types, known⟩ := h
    unfold ArgShape.types at known
    by_cases has : hasFields w c = true
    · exact ⟨_, if_pos (same.trans has)⟩
    · simp only [has, Bool.false_eq_true, if_false] at known
      cases known
  | unsupported v =>
    obtain ⟨types, known⟩ := h
    cases known

/-- Whether all shapes of a schema describe arguments. -/
structure ShapesTyped (w : World) : Prop where
  fields : ∀ t ∈ w.schema.types, ∀ f ∈ t.fields, f.shape.HasTypes w
  queries : ∀ q ∈ w.schema.queries, q.shape.HasTypes w

theorem ShapesTyped.of_same {w w' : World} (h : ShapesTyped w) (classes : w'.classes = w.classes)
    (types : w'.schema.types = w.schema.types) (queries : w'.schema.queries = w.schema.queries) :
    ShapesTyped w' where
  fields t ht f hf := (h.fields t (types ▸ ht) f hf).of_classes classes
  queries q hq := (h.queries q (queries ▸ hq)).of_classes classes

/-- Nothing that has arguments is added to a complete schema. -/
theorem Declaration.shapesTyped {w w' : World} (step : Declaration w w')
    (completed : w.schema.completed = true) (h : ShapesTyped w) : ShapesTyped w' := by
  cases step with
  | addition step =>
    cases step with
    | number n => exact h.of_same rfl rfl rfl
    | adHoc host => exact h.of_same rfl rfl rfl
    | type t isOpen => simp [completed] at isOpen
    | field i f isOpen => simp [completed] at isOpen
    | query q isOpen => simp [completed] at isOpen
  | left t => exact h.of_same rfl rfl rfl
  | scalar e isOpen => simp [completed] at isOpen

theorem World.IsReached.shapesTyped {w : World} (h : w.IsReached)
    (completed : w.schema.completed = true) : ShapesTyped w := by
  refine completed_induction (fun w w' step before ih => step.shapesTyped before ih) ?_ h completed
  intro w u reached isOpen settled
  have checked := (Schema.settle_ok settled reached.orderly (reached.unprojected isOpen)).2
  exact ⟨fun t ht f hf => (checked.fields t ht f hf).imp fun _ => And.left,
    fun q hq => (checked.queries q hq).imp fun _ => And.left⟩

end EntityGraph
