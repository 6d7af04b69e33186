import EntityGraph.Proofs.Request.Composed
import EntityGraph.Proofs.Request.Refusal

/-!
# What composing looks at

Composing a request checks what it selects while it draws the plan, and it leaves a selected field
early if the field is computed later or was selected before. The check of a field's name and of
whether something is selected beneath it comes first, so that these hold wherever composing gets to.
The arguments, and all that is selected beneath, are looked at only once for each name, where it is
selected first, and never for a field that is computed later.

This module says which selections composing gets to, and shows that a fault among these is always
noticed: nothing is composed, and so nothing is evaluated. What is wrong elsewhere passes.
-/

set_option linter.unusedSectionVars false

namespace EntityGraph

namespace Selected

def children : Selected → List Selected
  | field _ _ cs => cs

end Selected

/-- Whether composing gets from selections on the values of a type to others: these themselves, or
what is selected beneath a field of the query where its name is selected first. -/
inductive Visits (w : World) : TypeDecl → List Selected → TypeDecl → List Selected → Prop
  | here {t : TypeDecl} {ss : List Selected} : Visits w t ss t ss
  | beneath {t u : TypeDecl} {name : String} {args : List (String × Value)}
      {before children after tt : List Selected} {f : FieldDecl}
      (found : t.findField? name = some f) (pre : f.isPost = false)
      (first : name ∉ before.map (·.name))
      (visits : Visits w (w.schema.typeOf f.host) children u tt) :
      Visits w t (before ++ .field name args children :: after) u tt

/-- Whether something is wrong with selections on the values of a type, at the level of these
selections. -/
inductive Flaw (w : World) (t : TypeDecl) : List Selected → Prop
  | unknown {ss : List Selected} {s : Selected} (among : s ∈ ss)
      (missing : t.findField? s.name = none) : Flaw w t ss
  /-- Something is selected beneath a scalar, or nothing beneath an entity. -/
  | misshapen {ss : List Selected} {s : Selected} {f : FieldDecl} (among : s ∈ ss)
      (found : t.findField? s.name = some f)
      (shape : s.children = [] ↔ (w.schema.typeOf f.host).isScalar = false) : Flaw w t ss
  | undeclared {name : String} {args : List (String × Value)}
      {before children after : List Selected} {f : FieldDecl}
      (found : t.findField? name = some f) (pre : f.isPost = false)
      (first : name ∉ before.map (·.name)) (extra : ¬f.shape.Takes w args) :
      Flaw w t (before ++ .field name args children :: after)

/-- Whether something is wrong with a request, where composing gets to. -/
inductive QueryDecl.Flawed (w : World) (q : QueryDecl) (args : List (String × Value))
    (selections : List Selected) : Prop
  | undeclared (extra : ¬q.shape.Takes w args) : Flawed w q args selections
  | misshapen (shape : selections = [] ↔ (w.schema.typeOf q.host).isScalar = false) :
      Flawed w q args selections
  | beneath {t : TypeDecl} {ss : List Selected}
      (visits : Visits w (w.schema.typeOf q.host) selections t ss) (flaw : Flaw w t ss) :
      Flawed w q args selections

/-! ## Flaws are noticed

What was composed is looked at instead: its selections were all found on their types, and where a
name is selected first its arguments were bound and its own selections composed. No flaw is left
room by that. -/

theorem ArgShape.takes_of_bind {w : World} {r : Registry} {shape : ArgShape}
    {raw : List (String × Value)} {v : Value} {a b : Trail}
    (h : runOn (shape.bind w r raw) a = (.ok v, b)) : shape.Takes w raw := by
  have checked {types : List (Value × HostType)} (h : shape.check w types raw = .ok ()) :
      ∀ a ∈ raw, (typeOf? types a.1).isSome := by
    intro a ha
    by_contra unknown
    have named : a.1 ∈ (raw.map (·.1)).filter fun n => (typeOf? types n).isNone :=
      List.mem_filter.2 ⟨List.mem_map_of_mem ha, by simpa using unknown⟩
    unfold check at h
    rw [if_pos (by simpa using List.ne_nil_of_mem named)] at h
    cases h
  have declared (h : runOn (do
      let types ← shape.types w
      shape.check w types raw
      let bound ← raw.mapM fun e => do return (e.1, ← bindOne w r types e.1 e.2)
      shape.build w bound : Making Value) a = (.ok v, b)) : shape.Takes w raw := by
    intro types known
    rw [known] at h
    obtain ⟨types', _, same, h⟩ := bind_eq_ok h
    cases same
    obtain ⟨_, _, accepted, _⟩ := bind_eq_ok h
    exact checked (outcome_of_run accepted).1
  cases shape with
  | none =>
    cases raw with
    | nil => exact fun _ _ => by simp
    | cons x xs => cases h
  | defaults es => exact declared h
  | fieldsOf c => exact declared h
  | unsupported v => exact declared h

namespace Compose

variable {w : World}

theorem selectedField_shape {t : TypeDecl} {s : Selected} {f : FieldDecl}
    (h : selectedField w t s.name (!s.children.isEmpty) = .ok f) :
    t.findField? s.name = some f
      ∧ ¬(s.children = [] ↔ (w.schema.typeOf f.host).isScalar = false) := by
  obtain ⟨found, fits⟩ := selectedField_ok h
  refine ⟨found, ?_⟩
  cases empty : s.children <;> simp_all

theorem members_selects {t : TypeDecl} {seen : List String} {ss : List Selected}
    {ms : List Member} {a b : Trail} (h : runOn (members w t seen ss) a = (.ok ms, b)) :
    ∀ s ∈ ss, ∃ f, selectedField w t s.name (!s.children.isEmpty) = .ok f := by
  induction ss generalizing seen ms a b with
  | nil => simp
  | cons s rest ih =>
    rw [members] at h
    obtain ⟨o, m, first, h⟩ := bind_eq_ok h
    have others : ∀ s ∈ rest, ∃ f, selectedField w t s.name (!s.children.isEmpty) = .ok f := by
      cases o with
      | none => exact ih h
      | some _ =>
        obtain ⟨_, _, later, _⟩ := bind_eq_ok h
        exact ih later
    have this : ∃ f, selectedField w t s.name (!s.children.isEmpty) = .ok f := by
      obtain ⟨name, args, children⟩ := s
      rw [member] at first
      obtain ⟨f, _, selected, _⟩ := bind_eq_ok first
      exact ⟨f, (outcome_of_run selected).1⟩
    intro s' among
    rcases List.mem_cons.1 among with rfl | among
    · exact this
    · exact others s' among

/-- Where a field of the query is selected first, composing asks for its lambda and draws the plan
of its values. -/
theorem members_lends {t : TypeDecl} {seen : List String} {name : String}
    {args : List (String × Value)} {before children after : List Selected} {f : FieldDecl}
    (found : t.findField? name = some f) (pre : f.isPost = false)
    (first : name ∉ before.map (·.name)) (new : name ∉ seen) {ms : List Member} {a b : Trail}
    (h : runOn (members w t seen (before ++ .field name args children :: after)) a
      = (.ok ms, b)) :
    ∃ entity body plan c d e, runOn (lend w t f args) c = (.ok (entity, body), d)
      ∧ runOn (planWith (w.schema.typeOf f.host) f.isList children.isEmpty
          (members w (w.schema.typeOf f.host) [] children)) d = (.ok plan, e) := by
  -- Nothing before the field adds its name to those that were seen.
  induction before generalizing seen ms a b with
  | nil =>
    rw [List.nil_append, members] at h
    obtain ⟨o, m, this, _⟩ := bind_eq_ok h
    rw [member] at this
    obtain ⟨g, m, selected, this⟩ := bind_eq_ok this
    have same := (selectedField_ok (outcome_of_run selected).1).1
    cases found.symm.trans same
    rw [if_neg (by simp [pre, new])] at this
    obtain ⟨⟨entity, body⟩, m', lent, this⟩ := bind_eq_ok this
    obtain ⟨plan, m'', drawn, _⟩ := bind_eq_ok this
    exact ⟨entity, body, plan, m, m', m'', lent, drawn⟩
  | cons s before ih =>
    rw [List.map_cons, List.mem_cons, not_or] at first
    rw [List.cons_append, members] at h
    obtain ⟨o, m, _, h⟩ := bind_eq_ok h
    cases o with
    | none => exact ih first.2 new h
    | some _ =>
      obtain ⟨_, _, later, _⟩ := bind_eq_ok h
      exact ih first.2 (by simp [new, first.1]) later

/-- Whether fields were composed: those of a record, or none for a scalar. -/
def Composed (w : World) (t : TypeDecl) (ss : List Selected) : Prop :=
  t.isScalar = true ∧ ss = [] ∨ ∃ ms a b, runOn (members w t [] ss) a = (.ok ms, b)

theorem Composed.visits {t u : TypeDecl} {ss tt : List Selected} (composed : Composed w t ss)
    (visits : Visits w t ss u tt) : Composed w u tt := by
  induction visits with
  | here => exact composed
  | @beneath t u name args before children after tt f found pre first visits ih =>
    obtain ⟨_, none⟩ | ⟨ms, a, b, run⟩ := composed
    · simp at none
    · apply ih
      obtain ⟨g, selected⟩ := members_selects run (.field name args children) (by simp)
      obtain ⟨same, shape⟩ := selectedField_shape selected
      cases found.symm.trans same
      obtain ⟨_, _, plan, _, d, e, _, drawn⟩ := members_lends found pre first (by simp) run
      obtain ⟨scalar, _⟩ | ⟨_, _, ms', drawn, _⟩ := planWith_ok drawn
      · simp only [Selected.children, scalar] at shape
        exact .inl ⟨scalar, by simpa using shape⟩
      · exact .inr ⟨ms', d, e, drawn⟩

theorem Composed.not_flaw {t : TypeDecl} {ss : List Selected} (composed : Composed w t ss) :
    ¬Flaw w t ss := by
  obtain ⟨_, rfl⟩ | ⟨ms, a, b, run⟩ := composed
  · generalize none : ([] : List Selected) = ss
    rintro (@⟨_, _, among, _⟩ | @⟨_, _, _, among, _, _⟩ | _)
    · simp [← none] at among
    · simp [← none] at among
    · simp at none
  · intro flaw
    cases flaw with
    | @unknown _ s among missing =>
      obtain ⟨g, selected⟩ := members_selects run s among
      cases missing.symm.trans (selectedField_shape selected).1
    | @misshapen _ s f among found shape =>
      obtain ⟨g, selected⟩ := members_selects run s among
      obtain ⟨same, sound⟩ := selectedField_shape selected
      cases found.symm.trans same
      exact sound shape
    | undeclared found pre first extra =>
      obtain ⟨_, _, _, _, _, _, lent, _⟩ := members_lends found pre first (by simp) run
      obtain ⟨bound, m, binds, _⟩ := lend_ok lent
      exact extra (ArgShape.takes_of_bind binds)

end Compose

/-- What was composed has bound arguments and a plan, and nothing is selected on a scalar. -/
theorem QueryDecl.compose_drawn {w : World} {q : QueryDecl} {args : List (String × Value)}
    {selections : List Selected} {paging : Paging} {e : Expr Value} {a b : Trail}
    (h : runOn (q.compose w args selections paging) a = (.ok e, b)) :
    (∃ bound m m', runOn (q.shape.bind w w.schema.scalars args) m = (.ok bound, m'))
      ∧ ((w.schema.typeOf q.host).isScalar = true → selections = [])
      ∧ ∃ plan m m',
        runOn (Compose.plan w (w.schema.typeOf q.host) q.isList selections) m = (.ok plan, m') := by
  unfold compose at h
  obtain ⟨_, a', _, h⟩ := bind_eq_ok h
  obtain ⟨body, m, value, h⟩ := bind_eq_ok h
  obtain ⟨bound, _, binds, _⟩ := bind_eq_ok value
  by_cases bare : ((w.schema.typeOf q.host).isScalar && !selections.isEmpty) = true
  · simp only [bare, if_true] at h
    cases h
  · simp only [bare, Bool.false_eq_true, if_false] at h
    obtain ⟨plan, m', drawn, _⟩ := bind_eq_ok h
    exact ⟨⟨bound, _, _, binds⟩, by simpa using bare, plan, _, _, drawn⟩

theorem QueryDecl.composes {w : World} {q : QueryDecl} {args : List (String × Value)}
    {selections : List Selected} {paging : Paging} {e : Expr Value} {a b : Trail}
    (h : runOn (q.compose w args selections paging) a = (.ok e, b)) :
    Compose.Composed w (w.schema.typeOf q.host) selections := by
  obtain ⟨_, bare, plan, m, m', drawn⟩ := compose_drawn h
  obtain ⟨scalar, _⟩ | ⟨_, _, ms, run, _⟩ := Compose.planWith_ok drawn
  · exact .inl ⟨scalar, bare scalar⟩
  · exact .inr ⟨ms, _, _, run⟩

theorem QueryDecl.not_flawed {w : World} {q : QueryDecl} {args : List (String × Value)}
    {selections : List Selected} {paging : Paging} {e : Expr Value} {a b : Trail}
    (h : runOn (q.compose w args selections paging) a = (.ok e, b)) :
    ¬q.Flawed w args selections := by
  obtain ⟨⟨bound, _, _, binds⟩, bare, plan, m, m', drawn⟩ := compose_drawn h
  intro flawed
  cases flawed with
  | undeclared extra => exact extra (ArgShape.takes_of_bind binds)
  | misshapen shape =>
    obtain ⟨scalar, _⟩ | ⟨entity, some, _⟩ := Compose.planWith_ok drawn
    · simp_all
    · simp_all
  | beneath visits flaw => exact ((composes h).visits visits).not_flaw flaw

/-! ## Only flaws and functions of the schema refuse -/

/-- Whether a fault comes from asking for the lambda of a query or of a field: from binding its
arguments, or from the functions that make it. -/
inductive World.Meets (w : World) (q : QueryDecl) (e : Fault) : Prop
  | query {args : List (String × Value)} {a b : Trail}
      (fails : runOn (Compose.queryValue w q args) a = (.error e, b)) : Meets w q e
  | field {t : TypeDecl} {f : FieldDecl} {args : List (String × Value)} {a b : Trail}
      (declared : t ∈ w.schema.types) (member : f ∈ t.fields)
      (fails : runOn (Compose.lend w t f args) a = (.error e, b)) : Meets w q e

/-- Whether a fault is the library's word on a request, or was met on the way. -/
def Fault.Rejects (w : World) (q : QueryDecl) (e : Fault) : Prop :=
  e.kind = .compilation ∨ e.kind = .invalidArgument ∨ w.Meets q e

namespace Compose

variable {w : World} {P : Fault → Prop}

theorem selectedField_error {t : TypeDecl} {name : String} {hasChildren : Bool} {e : Fault}
    (h : selectedField w t name hasChildren = .error e) : e.kind = .compilation := by
  unfold selectedField at h
  split at h
  · cases h
    rfl
  · next f found =>
    dsimp only at h
    split at h
    · cases h
      rfl
    · split at h
      · cases h
        rfl
      · cases h

variable (sealed : Sealed w) (compilation : ∀ e, e.kind = .compilation → P e)

include sealed compilation

/-- A complete schema lacks no projection. -/
theorem failsWith_planWith {t : TypeDecl} {isList isEmpty : Bool} {ms : Making (List Member)}
    (declared : t.isScalar = false → t ∈ w.schema.types)
    (members : t.isScalar = false → FailsWith P ms) :
    FailsWith P (planWith t isList isEmpty ms) := by
  unfold planWith
  refine failsWith_ite (fun _ => failsWith_pure _) fun object => ?_
  have entity : t.isScalar = false := by simpa using object
  obtain ⟨_, projection, _⟩ := sealed.records t (declared entity) entity
  rw [projection]
  refine failsWith_guard (fun _ => compilation (.emptySelection t.name) rfl) fun _ => ?_
  exact failsWith_then (members entity) fun _ => failsWith_pure _

variable (lends : ∀ t ∈ w.schema.types, ∀ f ∈ t.fields, f.isPost = false → ∀ args,
  FailsWith P (lend w t f args))

include lends

mutual

theorem failsWith_member {t : TypeDecl} (declared : t ∈ w.schema.types) (seen : List String)
    (s : Selected) : FailsWith P (member w t seen s) := by
  obtain ⟨name, args, children⟩ := s
  rw [member]
  refine failsWith_bind ?_ fun f a b selected => ?_
  · exact failsWith_outcome fun e refused => compilation e (selectedField_error refused)
  · have found := (selectedField_ok (outcome_of_run selected).1).1
    refine failsWith_ite (fun _ => failsWith_pure _) fun taken => ?_
    have pre : f.isPost = false ∧ name ∉ seen := by simpa using taken
    refine failsWith_then (lends t declared f (List.mem_of_find?_eq_some found) pre.1 args)
      fun _ => ?_
    refine failsWith_then ?_ fun _ => failsWith_pure _
    exact failsWith_planWith sealed compilation typeOf_mem fun entity =>
      failsWith_members (typeOf_mem entity) [] children

theorem failsWith_members {t : TypeDecl} (declared : t ∈ w.schema.types) (seen : List String)
    (ss : List Selected) : FailsWith P (members w t seen ss) := by
  cases ss with
  | nil => exact failsWith_pure _
  | cons s rest =>
    rw [members]
    refine failsWith_then (failsWith_member declared seen s) fun o => ?_
    cases o with
    | none => exact failsWith_members declared _ rest
    | some _ => exact failsWith_then (failsWith_members declared _ rest) fun _ => failsWith_pure _

end

end Compose

mutual

/-- A plan is always assembled, and nothing is made but parameters. -/
theorem Plan.assemble_total (plan : Plan) (value : Expr Value) (a : Trail) :
    ∃ e b, runOn (plan.assemble value) a = (.ok e, b) ∧ b.memory = a.memory := by
  cases plan with
  | plain => exact ⟨_, _, rfl, rfl⟩
  | records isList typeName ms =>
    let row : Param := ⟨a.supply + 1, Schema.entityName typeName⟩
    obtain ⟨fs, b, members, same⟩ := assembleMembers_total ms row { a with supply := a.supply + 1 }
    rw [Plan.assemble, runOn_bind_ok (show runOn (newParam _) a = (.ok row, _) from rfl),
      runOn_bind_ok members]
    exact ⟨_, _, rfl, same⟩

theorem Member.assemble_total (m : Member) (row : Param) (a : Trail) :
    ∃ e b, runOn (m.assemble row) a = (.ok e, b) ∧ b.memory = a.memory := by
  cases m with
  | mk name entity body plan =>
    obtain ⟨e, b, projects, same⟩ := plan.assemble_total
      (body.substitute fun p => if p == entity then some (.param row) else none) a
    rw [Member.assemble, runOn_bind_ok projects]
    exact ⟨_, _, rfl, same⟩

theorem assembleMembers_total (ms : List Member) (row : Param) (a : Trail) :
    ∃ fs b, runOn (assembleMembers row ms) a = (.ok fs, b) ∧ b.memory = a.memory := by
  cases ms with
  | nil => exact ⟨_, _, rfl, rfl⟩
  | cons m ms =>
    obtain ⟨e, b, first, same⟩ := m.assemble_total row a
    obtain ⟨fs, c, later, same'⟩ := assembleMembers_total ms row b
    rw [assembleMembers, runOn_bind_ok first, runOn_bind_ok later]
    exact ⟨_, _, rfl, same'.trans same⟩

end

/-- A computation in a request runs from what was made before. -/
theorem Requesting.runOn_making {α : Type} (x : Making α) (u : Usage) :
    runOn (Requesting.making x) u
      = ((runOn x u.trail).1, { u with trail := (runOn x u.trail).2 }) := by
  show runOn (liftM (runOn x u.trail).1 : Requesting α) _ = _
  exact runOn_outcome _ _

theorem Requesting.run_of_making {α : Type} {x : Making α} {r : Outcome α} {u v : Usage}
    (h : runOn (Requesting.making x) u = (r, v)) : runOn x u.trail = (r, v.trail) := by
  rw [runOn_making] at h
  cases h
  rfl

/-- A request to a complete schema uses one context. -/
theorem World.runOn_executeQuery {w : World} (completed : w.schema.completed = true)
    (context : Value) (name : String) (args : List (String × Value)) (selections : List Selected)
    (paging : Paging) (u : Usage) :
    runOn (w.executeQuery context name args selections paging) u
      = ((runOn (w.runQuery context name args selections paging) u.trail).1,
          { contexts := u.contexts + 1
            trail := (runOn (w.runQuery context name args selections paging) u.trail).2 }) := by
  have whole : w.executeQuery context name args selections paging
      = Requesting.useContext >>= fun _ =>
        Requesting.making (w.runQuery context name args selections paging) := by
    rw [executeQuery, Requesting.ensureCompleted, completed]
    rfl
  rw [whole, runOn_bind_ok (show runOn Requesting.useContext u = (.ok ⟨⟩, _) from rfl),
    Requesting.runOn_making]

theorem Paging.check_error {p : Paging} {q : QueryDecl} {e : Fault} (h : p.check q = .error e) :
    e.kind = .invalidArgument := by
  unfold check at h
  split at h
  · cases h
    rfl
  · split at h
    · cases h
      rfl
    · split at h
      · cases h
        rfl
      · cases h

namespace QueryDecl

/-- Composing fails with the library's word on a request, or as asking for a lambda does. -/
theorem failsWith_compose {w : World} {P : Fault → Prop} (sealed : Sealed w)
    (compilation : ∀ e, e.kind = .compilation → P e)
    (invalid : ∀ e, e.kind = .invalidArgument → P e) {q : QueryDecl}
    {args : List (String × Value)} (query : FailsWith P (Compose.queryValue w q args))
    (lends : ∀ t ∈ w.schema.types, ∀ f ∈ t.fields, f.isPost = false → ∀ args,
      FailsWith P (Compose.lend w t f args)) (selections : List Selected) (paging : Paging) :
    FailsWith P (q.compose w args selections paging) := by
  unfold compose
  refine failsWith_then ?_ fun _ => ?_
  · exact failsWith_outcome fun e checked => invalid e (Paging.check_error checked)
  · refine failsWith_then query fun body => ?_
    refine failsWith_guard (fun _ => compilation (.querySelection _ _) rfl) fun _ => ?_
    refine failsWith_then ?_ fun plan => ?_
    · exact Compose.failsWith_planWith sealed compilation typeOf_mem fun entity =>
        Compose.failsWith_members sealed compilation lends (typeOf_mem entity) [] selections
    · refine failsWith_then (failsWith_total fun _ => ⟨_, _, rfl⟩) fun _ => ?_
      refine failsWith_then (failsWith_total fun a => ?_) fun _ => failsWith_pure _
      obtain ⟨e, b, made, _⟩ := plan.assemble_total (paging.apply body) a
      exact ⟨e, b, made⟩

theorem compose_rejects {w : World} (sealed : Sealed w) (q : QueryDecl)
    (args : List (String × Value)) (selections : List Selected) (paging : Paging) :
    FailsWith (·.Rejects w q) (q.compose w args selections paging) :=
  failsWith_compose sealed (fun _ => .inl) (fun _ invalid => .inr (.inl invalid))
    (fun _ _ _ fails => .inr (.inr (.query fails)))
    (fun _ declared _ member _ _ _ _ _ fails => .inr (.inr (.field declared member fails)))
    selections paging

/-- A request that is flawed where composing gets to is never composed, so its query is not
evaluated: whatever was made and assigned, composing did. The fault is the library's word on a
request, unless one was met on the way. -/
theorem flawed_refused {w : World} (reached : w.IsReached) (completed : w.schema.completed = true)
    {q : QueryDecl} {args : List (String × Value)} {selections : List Selected}
    (flawed : q.Flawed w args selections) (paging : Paging) (a : Trail) :
    ∃ e b, runOn (q.compose w args selections paging) a = (.error e, b) ∧ e.Rejects w q
      ∧ ∀ name, w.query name = .ok q → ∀ context n,
        runOn (w.executeQuery context name args selections paging) ⟨n, a⟩
          = (.error e, ⟨n + 1, b⟩) := by
  cases run : runOn (q.compose w args selections paging) a with
  | mk r b =>
    cases r with
    | ok composed => exact absurd flawed (not_flawed run)
    | error e =>
      have rejects := compose_rejects (reached.sealed completed) q args selections paging a b e run
      refine ⟨e, b, rfl, rejects, fun name found context n => ?_⟩
      have fails : runOn (w.runQuery context name args selections paging) a = (.error e, b) := by
        unfold World.runQuery
        rw [found, liftM_ok_bind, runOn_bind_error run]
      have ready : runOn (Requesting.ensureCompleted w) ⟨n, a⟩ = (.ok (), ⟨n, a⟩) := by
        unfold Requesting.ensureCompleted
        rw [completed]
        rfl
      have counted : runOn Requesting.useContext ⟨n, a⟩ = (.ok ⟨⟩, ⟨n + 1, a⟩) := rfl
      unfold World.executeQuery
      rw [runOn_bind_ok ready, runOn_bind_ok counted, Requesting.runOn_making, fails]

/-- A field takes no arguments if it was declared without any. -/
def lacksArguments (t : TypeDecl) (name : String) : Bool :=
  (t.findField? name).any fun f => !f.isPost && match f.shape with
    | .none => true
    | _ => false

theorem lacksArguments_not_takes {w : World} {t : TypeDecl} {name : String}
    (h : lacksArguments t name = true) (a : String × Value) :
    ∃ f, t.findField? name = some f ∧ f.isPost = false ∧ ¬f.shape.Takes w [a] := by
  unfold lacksArguments at h
  cases found : t.findField? name with
  | none =>
    rw [found] at h
    cases h
  | some f =>
    rw [found, Option.any_some, Bool.and_eq_true] at h
    obtain ⟨pre, bare⟩ := h
    refine ⟨f, rfl, by simpa using pre, fun takes => ?_⟩
    split at bare
    · next shape =>
      rw [shape] at takes
      have known := takes [] rfl a (by simp)
      simp [ArgShape.typeOf?] at known
    · cases bare

theorem sample_flawed_refused :
    let w := sample (.param sampleEntity)
    ∃ e b, runOn (sampleQuery.compose w [] [.field "value" [("zz", .int 1)] []] .all) w.trail
      = (.error e, b) ∧ e.Rejects w sampleQuery := by
  have refused (w : World) (reached : w.IsReached) (completed : w.schema.completed = true)
      (lacks : lacksArguments (w.schema.typeOf sampleQuery.host) "value" = true) :
      ∃ e b, runOn (sampleQuery.compose w [] [.field "value" [("zz", .int 1)] []] .all) w.trail
        = (.error e, b) ∧ e.Rejects w sampleQuery := by
    obtain ⟨f, found, pre, extra⟩ := lacksArguments_not_takes lacks ("zz", .int 1)
    have flaw : Flaw w (w.schema.typeOf sampleQuery.host)
        ([] ++ [.field "value" [("zz", .int 1)] []]) := .undeclared found pre (by simp) extra
    obtain ⟨e, b, run, answers, _⟩ :=
      flawed_refused reached completed (.beneath .here flaw) .all w.trail
    exact ⟨e, b, run, answers⟩
  exact refused (sample (.param sampleEntity)) (sample_isReached _) (by decide +kernel)
    (by decide +kernel)

/-- A field that was selected before is given an argument that it does not have, and the request is
composed. -/
theorem repeated_field_unchecked :
    let w := sample (.param sampleEntity)
    (∃ f, (w.schema.typeOf sampleQuery.host).findField? "value" = some f ∧ f.isPost = false
        ∧ ¬f.shape.Takes w [("zz", .int 1)])
      ∧ (runOn (sampleQuery.compose w [] [.field "value" [] [], .field "value" [("zz", .int 1)] []]
          .all) w.trail).1.isOk = true := by
  have lacks : lacksArguments ((sample (.param sampleEntity)).schema.typeOf sampleQuery.host)
      "value" = true := by
    decide +kernel
  exact ⟨lacksArguments_not_takes lacks _, by decide +kernel⟩

end QueryDecl

end EntityGraph
