import EntityGraph.Proofs.Value.Mundane

/-!
# Which faults refuse a request

A fault refuses a request if it says that the request asks for something the schema does not offer:
a query, a field or an argument that is unknown, selections that are missing or out of place, a
field under another name. Other faults tell of values, of classes, or of lambdas that cannot be
built.

Hardly anything that composing does can refuse a request. This module says so for all of its parts
but the choice of fields: binding arguments, capturing functions and making values give other faults
only. What a function of the application does is its own affair, and a fault that it raises is told
apart from those of the library.
-/

set_option linter.unusedSectionVars false

namespace EntityGraph

namespace Fault

/-- Whether a fault refuses a request for what it asks. -/
def isRefusal (e : Fault) : Bool :=
  match e with
  | argumentsGiven _ | unexpectedArguments .. => true
  | e => e.kind == .compilation

theorem isRefusal_of_compilation {e : Fault} (h : e.kind = .compilation) : e.isRefusal = true := by
  unfold isRefusal
  split
  · rfl
  · rfl
  · simpa using h

theorem tree_not_refusal (f : TreeFault Value) : (tree f).isRefusal = false := by
  cases f <;> rfl

/-- What is mundane refuses nothing. -/
theorem IsMundane.not_refusal {e : Fault} (h : e.IsMundane) : e.isRefusal = false := by
  cases e with
  | host kind text => simpa [isRefusal, Fault.kind] using h.2
  | tree f => exact tree_not_refusal f
  | captureArity | proxyTruth | proxyIteration | wireValue | queryLambda | fieldLambda => rfl
  | _ => cases h

end Fault

variable {α β : Type}

/-- Whether an outcome refuses nothing. -/
def Mild (x : Outcome α) : Prop := ∀ e, x = .error e → e.isRefusal = false

theorem mild_ok (a : α) : Mild (.ok a : Outcome α) := faultsIn_ok a

theorem mild_error {e : Fault} (h : e.isRefusal = false) : Mild (.error e : Outcome α) :=
  faultsIn_error h

theorem mild_bind {x : Outcome α} {f : α → Outcome β} (hx : Mild x)
    (hf : ∀ a, x = .ok a → Mild (f a)) : Mild (x >>= f) :=
  faultsIn_bind hx hf

theorem mild_ofTree (x : Except (TreeFault Value) α) : Mild (ofTree x) :=
  fun e h => (faultsIn_ofTree x e h).not_refusal

/-! ## Computations -/

namespace World

/-- The functions of an application that composing a request calls: those that its schema was given,
and those that such functions give back. -/
inductive Lent (w : World) : Value → Prop
  | query {q : QueryDecl} {g : Value} (declared : q ∈ w.schema.queries)
      (source : q.source = .factory g) : Lent w g
  | field {t : TypeDecl} {f : FieldDecl} {g : Value} (declared : t ∈ w.schema.types)
      (member : f ∈ t.fields) (source : f.source = .factory g) : Lent w g
  | scalar {e : ScalarEntry} (entry : e ∈ w.schema.scalars) : Lent w e.translate
  | back {g f : Value} {args : List Value} {a b : Trail} (lent : Lent w g)
      (gives : runOn (Value.call w g args) a = (.ok f, b)) : Lent w f

/-- Whether a call of such a function raises a fault. -/
def Raises (w : World) (e : Fault) : Prop :=
  ∃ g, w.Lent g ∧ ∃ args a, (runOn (Value.call w g args) a).1 = .error e

theorem Lent.raises {w : World} {g : Value} (lent : w.Lent g) (args : List Value) :
    FailsWith w.Raises (Value.call w g args) :=
  fun a _ _ run => ⟨g, lent, args, a, by rw [run]⟩

end World

/-- Whether a computation refuses nothing by itself: a fault that does is one that the application
raises. -/
def Unrefused (w : World) (x : Making α) : Prop :=
  ∀ a b e, runOn x a = (.error e, b) → e.isRefusal = true → w.Raises e

theorem unrefused_of_mundane {w : World} {e : Fault} (h : e.IsMundane) :
    e.isRefusal = true → w.Raises e := by
  rw [h.not_refusal]
  intro refusal
  cases refusal

theorem unrefused_outcome {w : World} {x : Outcome α} (h : Mild x) :
    Unrefused w (liftM x : Making α) := by
  refine failsWith_outcome fun e fails refusal => ?_
  rw [h e fails] at refusal
  cases refusal

theorem unrefused_throw {w : World} {f : Fault} (h : f.isRefusal = false) :
    Unrefused w (throw f : Making α) :=
  unrefused_outcome (mild_error h)

section

variable {w : World} {P : Fault → Prop}

/-! ## Asking for lambdas

The faults of a function that the application lends are its own, and what is mundane is of every sort
that is asked about here. -/

section

variable (mundane : ∀ e, e.IsMundane → P e) (raises : ∀ e, w.Raises e → P e)

include mundane raises

theorem World.Lent.failsWith_capture {f : Value} (lent : w.Lent f) (ps : List Param) :
    FailsWith P (w.capture f ps) := by
  refine failsWith_then (failsWith_now w) fun now => ?_
  refine failsWith_then (failsWith_outcome fun e h => mundane e (Value.faultsIn_arity now f e h))
    fun arity => ?_
  refine failsWith_guard (fun _ => mundane _ trivial) fun _ => ?_
  refine failsWith_then (failsWith_mapM _ fun v _ => Value.failsWith_owned _) fun proxies => ?_
  refine failsWith_then (failsWith_mono (lent.raises proxies) raises) fun body => ?_
  refine failsWith_then (failsWith_now w) fun now => ?_
  exact failsWith_outcome fun e h => mundane e (faultsIn_lambda now _ _ e h)

/-- The lambda of a field that an application computes is its own. A field that is computed after the
query has none. -/
theorem FieldDecl.failsWith_expression {t : TypeDecl} {f : FieldDecl}
    (declared : t ∈ w.schema.types) (member : f ∈ t.fields)
    (post : f.isPost = true → P (.postExpression f.name)) (typeName : String) (bound : Value) :
    FailsWith P (f.expression w typeName bound) := by
  unfold expression
  split
  · exact failsWith_pure _
  · next g source =>
    have lent : w.Lent g := .field declared member source
    refine failsWith_bind (failsWith_mono (lent.raises _) raises) fun h a b gives => ?_
    unfold Schema.captureField
    dsimp only
    split
    · exact failsWith_ite (fun _ => failsWith_pure _) fun _ => failsWith_throw (mundane _ trivial)
    · refine failsWith_then (failsWith_newParam _) fun entity => ?_
      exact (lent.back gives).failsWith_capture mundane raises _
  · next g source => exact failsWith_throw (post (by simp [isPost, source]))

theorem QueryDecl.failsWith_expression {q : QueryDecl} (declared : q ∈ w.schema.queries)
    (bound : Value) : FailsWith P (q.expression w bound) := by
  unfold expression
  split
  · exact failsWith_pure _
  · next g source =>
    have lent : w.Lent g := .query declared source
    refine failsWith_bind (failsWith_mono (lent.raises _) raises) fun h a b gives => ?_
    unfold Schema.captureQuery
    split
    · exact failsWith_ite (fun _ => failsWith_pure _) fun _ => failsWith_throw (mundane _ trivial)
    · exact (lent.back gives).failsWith_capture mundane raises _

/-! ## Binding arguments -/

theorem Registry.failsWith_translateAs (host : HostType) (raw : Value) :
    FailsWith P (Registry.translateAs w w.schema.scalars host raw) := by
  unfold translateAs
  split
  · next e found =>
    have lent : w.Lent e.translate := .scalar (List.mem_of_find?_eq_some found)
    refine failsWith_then (failsWith_outcome fun e h => ?_) fun v => ?_
    · exact mundane e (WireKind.faultsIn_coerce _ _ e h)
    · exact failsWith_mono (lent.raises _) raises
  · exact failsWith_pure _

/-- Binding arguments fails by the shape, by the check of their names, or as the application does. -/
theorem ArgShape.failsWith_bind {shape : ArgShape} {raw : List (String × Value)}
    (given : shape = .none → raw ≠ [] → P (.argumentsGiven (sortedNames (raw.map (·.1)))))
    (types : FaultsIn P (shape.types w))
    (check : ∀ types, shape.types w = .ok types → FaultsIn P (shape.check w types raw)) :
    FailsWith P (shape.bind w w.schema.scalars raw) := by
  have declared : FailsWith P (do
      let types ← shape.types w
      shape.check w types raw
      let bound ← raw.mapM fun e => do
        return (e.1, ← bindOne w w.schema.scalars types e.1 e.2)
      shape.build w bound : Making Value) := by
    refine EntityGraph.failsWith_bind (failsWith_outcome types) fun types a b known => ?_
    refine failsWith_then (failsWith_outcome (check types (outcome_of_run known).1)) fun _ => ?_
    refine failsWith_then (failsWith_mapM raw fun e _ => ?_) fun bound => ?_
    · refine failsWith_then ?_ fun _ => failsWith_pure _
      unfold bindOne
      split
      · exact failsWith_pure _
      · exact Registry.failsWith_translateAs mundane raises _ _
    · unfold build
      split
      · exact failsWith_mono (Value.failsWith_makeInstance _ _ _) mundane
      · exact Value.failsWith_owned _
      · exact failsWith_pure _
  cases shape with
  | none =>
    refine failsWith_ite (fun _ => failsWith_pure _) fun extra => failsWith_throw (given rfl ?_)
    simpa using extra
  | defaults es => exact declared
  | fieldsOf c => exact declared
  | unsupported v => exact declared

end

/-! ## What refuses nothing -/

/-- The lambda of a field that an application computes is its own. -/
theorem unrefused_fieldExpression {t : TypeDecl} {f : FieldDecl} (declared : t ∈ w.schema.types)
    (member : f ∈ t.fields) (typeName : String) (bound : Value) :
    Unrefused w (f.expression w typeName bound) :=
  FieldDecl.failsWith_expression (fun _ => unrefused_of_mundane) (fun _ raises _ => raises) declared
    member (fun _ => nofun) typeName bound

theorem unrefused_queryExpression {q : QueryDecl} (declared : q ∈ w.schema.queries)
    (bound : Value) : Unrefused w (q.expression w bound) :=
  QueryDecl.failsWith_expression (fun _ => unrefused_of_mundane) (fun _ raises _ => raises) declared
    bound

/-- Whether raw arguments have names that a shape declares. -/
def ArgShape.Takes (w : World) (shape : ArgShape) (raw : List (String × Value)) : Prop :=
  ∀ types, shape.types w = .ok types → ∀ a ∈ raw, (ArgShape.typeOf? types a.1).isSome

theorem ArgShape.mild_types (w : World) (shape : ArgShape) : Mild (shape.types w) := by
  cases shape with
  | none => exact mild_ok _
  | defaults es => exact mild_ok _
  | fieldsOf c =>
    show Mild (if hasFields w c then _ else _)
    split
    · exact mild_ok _
    · exact mild_error rfl
  | unsupported v => exact mild_error rfl

theorem ArgShape.mild_check {shape : ArgShape} {types : List (Value × HostType)}
    {raw : List (String × Value)} (known : ∀ a ∈ raw, (typeOf? types a.1).isSome) :
    Mild (shape.check w types raw) := by
  have expected : (raw.map (·.1)).filter (fun n => (typeOf? types n).isNone) = [] := by
    rw [List.filter_eq_nil_iff]
    intro n hn
    obtain ⟨a, ha, rfl⟩ := List.mem_map.1 hn
    simpa [Option.isSome_iff_ne_none] using known a ha
  unfold check
  simp only [expected]
  split
  · next unexpected => simp at unexpected
  · split
    · exact mild_error rfl
    · exact mild_ok _

/-- Arguments with names that are declared are not refused for being there. -/
theorem ArgShape.unrefused_bind {shape : ArgShape} {raw : List (String × Value)}
    (takes : shape.Takes w raw) : Unrefused w (shape.bind w w.schema.scalars raw) := by
  have calm {β : Type} {x : Outcome β} (h : Mild x) :
      FaultsIn (fun e => e.isRefusal = true → w.Raises e) x := by
    intro e fails refusal
    rw [h e fails] at refusal
    cases refusal
  refine failsWith_bind (fun _ => unrefused_of_mundane) (fun _ raises _ => raises)
    (fun bare some => ?_) (calm (mild_types w shape)) fun types known =>
      calm (mild_check (takes types known))
  -- A shape of no arguments takes none.
  subst bare
  cases raw with
  | nil => exact absurd rfl some
  | cons a as =>
    have found := takes [] rfl a (by simp)
    simp [typeOf?] at found

end

end EntityGraph
