import EntityGraph.Proofs.Run
import EntityGraph.Request.Compose

/-!
# What a plan holds

Composing a request first draws a plan of it. What a drawn plan holds is said here without regard to
how it was drawn, by rules that follow the selections: a value of a scalar stands for itself; the
record of a value of any other type has a member for each selected field that is computed inside the
query, at the place where the field is selected first; and a member holds the very lambda that the
field gives for its bound arguments.

Binding arguments and asking for lambdas leaves a trail. The rules say from where to where it leads.
-/

namespace EntityGraph

/-- The name of a member. -/
def Member.name : Member → String
  | .mk n _ _ _ => n

/-- Whether the lambda of a field for raw arguments has this parameter for the entity and this
body. -/
def Lends (w : World) (t : TypeDecl) (f : FieldDecl) (args : List (String × Value))
    (entity : Param) (body : Expr Value) (a b : Trail) : Prop :=
  ∃ bound m, runOn (f.shape.bind w w.schema.scalars args) a = (.ok bound, m)
    ∧ runOn (f.expression w t.name bound) m = (.ok (.lambda [w.schema.context, entity] body), b)

/-- Whether the lambda of a query for raw arguments has this body. -/
def LendsQuery (w : World) (q : QueryDecl) (args : List (String × Value)) (body : Expr Value)
    (a b : Trail) : Prop :=
  ∃ bound m, runOn (q.shape.bind w w.schema.scalars args) a = (.ok bound, m)
    ∧ runOn (q.expression w bound) m = (.ok (.lambda [w.schema.context] body), b)

mutual

/-- Whether a plan is one of values of a type, with these fields selected. -/
inductive Plans (w : World) :
    TypeDecl → Bool → List Selected → Plan → Trail → Trail → Prop
  /-- A scalar has no fields to select. -/
  | scalar {t : TypeDecl} {isList : Bool} {a : Trail} (scalar : t.isScalar = true) :
      Plans w t isList [] .plain a a
  | entity {t : TypeDecl} {isList : Bool} {selections : List Selected} {ms : List Member}
      {a b : Trail} (entity : t.isScalar = false) (selected : selections ≠ [])
      (members : PlansMembers w t [] selections ms a b) :
      Plans w t isList selections (.records isList t.name ms) a b

/-- Whether members are those of selected fields of a type, after these names were seen. -/
inductive PlansMembers (w : World) :
    TypeDecl → List String → List Selected → List Member → Trail → Trail → Prop
  | nil {t : TypeDecl} {seen : List String} {a : Trail} : PlansMembers w t seen [] [] a a
  /-- A field that is computed later or was selected before is no member. -/
  | passed {t : TypeDecl} {seen : List String} {s : Selected} {rest : List Selected}
      {ms : List Member} {f : FieldDecl} {a b : Trail} (found : t.findField? s.name = some f)
      (passed : f.isPost = true ∨ s.name ∈ seen) (later : PlansMembers w t seen rest ms a b) :
      PlansMembers w t seen (s :: rest) ms a b
  | taken {t : TypeDecl} {seen : List String} {name : String} {args : List (String × Value)}
      {children rest : List Selected} {entity : Param} {body : Expr Value} {plan : Plan}
      {ms : List Member} {f : FieldDecl} {a b c d : Trail} (found : t.findField? name = some f)
      (pre : f.isPost = false) (new : name ∉ seen) (lends : Lends w t f args entity body a b)
      (beneath : Plans w (w.schema.typeOf f.host) f.isList children plan b c)
      (later : PlansMembers w t (seen ++ [name]) rest ms c d) :
      PlansMembers w t seen (.field name args children :: rest)
        (.mk name entity body plan :: ms) a d

end

namespace Compose

theorem selectedField_ok {w : World} {t : TypeDecl} {name : String} {hasChildren : Bool}
    {f : FieldDecl} (h : selectedField w t name hasChildren = .ok f) :
    t.findField? name = some f ∧ hasChildren = !(w.schema.typeOf f.host).isScalar := by
  unfold selectedField at h
  split at h
  · cases h
  · next g found =>
    cases scalar : (w.schema.typeOf g.host).isScalar <;> cases hasChildren <;> simp_all

theorem lend_ok {w : World} {t : TypeDecl} {f : FieldDecl} {args : List (String × Value)}
    {entity : Param} {body : Expr Value} {a b : Trail}
    (h : runOn (lend w t f args) a = (.ok (entity, body), b)) : Lends w t f args entity body a b := by
  obtain ⟨bound, m, binds, h⟩ := bind_eq_ok h
  obtain ⟨e, m', gives, h⟩ := bind_eq_ok h
  refine ⟨bound, m, binds, ?_⟩
  rw [gives]
  split at h
  · next ps b =>
    split at h
    · next context entity' =>
      split at h
      · next same =>
        obtain ⟨_, m'', replaceable, h⟩ := bind_eq_ok h
        obtain rfl : m' = m'' := by
          rw [runOn_outcome] at replaceable
          exact (Prod.ext_iff.1 replaceable).2
        cases h
        obtain rfl : context = w.schema.context := by simpa using same
        rfl
      · cases h
    · cases h
  · cases h

theorem planWith_ok {t : TypeDecl} {isList isEmpty : Bool} {members : Making (List Member)}
    {plan : Plan} {a b : Trail} (h : runOn (planWith t isList isEmpty members) a = (.ok plan, b)) :
    (t.isScalar = true ∧ plan = .plain ∧ a = b)
      ∨ t.isScalar = false ∧ isEmpty = false
        ∧ ∃ ms, runOn members a = (.ok ms, b) ∧ plan = .records isList t.name ms := by
  unfold planWith at h
  cases scalar : t.isScalar with
  | true =>
    rw [if_pos scalar] at h
    cases h
    exact .inl ⟨rfl, rfl, rfl⟩
  | false =>
    rw [if_neg (by simp [scalar])] at h
    cases isEmpty with
    | true => cases h
    | false =>
      rw [if_neg (by simp)] at h
      split at h
      · cases h
      · obtain ⟨ms, m, drawn, h⟩ := bind_eq_ok h
        cases h
        exact .inr ⟨rfl, rfl, ms, drawn, rfl⟩

theorem plans_of_planWith {w : World} {t : TypeDecl} {isList : Bool} {selections : List Selected}
    {plan : Plan} {a b : Trail}
    (h : runOn (planWith t isList selections.isEmpty (members w t [] selections)) a = (.ok plan, b))
    (bare : t.isScalar = true → selections = [])
    (drawn : ∀ ms, runOn (members w t [] selections) a = (.ok ms, b) →
      PlansMembers w t [] selections ms a b) : Plans w t isList selections plan a b := by
  obtain ⟨scalar, rfl, rfl⟩ | ⟨entity, some, ms, run, rfl⟩ := planWith_ok h
  · rw [bare scalar]
    exact .scalar scalar
  · exact .entity entity (by simpa using some) (drawn ms run)

mutual

/-- What a selected field is as a member, if it is one. -/
theorem member_ok (w : World) (t : TypeDecl) (seen : List String) (s : Selected) {o : Option Member}
    {a b : Trail} (h : runOn (member w t seen s) a = (.ok o, b)) {rest : List Selected}
    {ms : List Member} {c : Trail}
    (later : ∀ seen', (o.isSome = true ∧ seen' = seen ++ [s.name] ∨ o = none ∧ seen' = seen) →
      PlansMembers w t seen' rest ms b c) :
    PlansMembers w t seen (s :: rest) (o.toList ++ ms) a c := by
  obtain ⟨name, args, children⟩ := s
  rw [member] at h
  obtain ⟨f, m, selected, h⟩ := bind_eq_ok h
  rw [runOn_outcome] at selected
  injection selected with selected same
  subst same
  obtain ⟨found, fits⟩ := selectedField_ok selected
  by_cases passed : (f.isPost || seen.contains name) = true
  · rw [if_pos passed] at h
    cases h
    exact .passed found (by simpa [Selected.name] using passed) (later seen (.inr ⟨rfl, rfl⟩))
  · rw [if_neg passed] at h
    obtain ⟨⟨entity, body⟩, m, lent, h⟩ := bind_eq_ok h
    obtain ⟨plan, m', drawn, h⟩ := bind_eq_ok h
    cases h
    have new : f.isPost = false ∧ name ∉ seen := by simpa using passed
    refine .taken found new.1 new.2 (lend_ok lent) ?_ (later _ (.inl ⟨rfl, rfl⟩))
    refine plans_of_planWith drawn (fun scalar => ?_) fun ms run => members_ok w _ [] children run
    simpa [scalar] using fits

/-- What selected fields are as members. -/
theorem members_ok (w : World) (t : TypeDecl) (seen : List String) (selections : List Selected)
    {ms : List Member} {a b : Trail} (h : runOn (members w t seen selections) a = (.ok ms, b)) :
    PlansMembers w t seen selections ms a b := by
  cases selections with
  | nil =>
    cases h
    exact .nil
  | cons s rest =>
    rw [members] at h
    obtain ⟨o, m, first, h⟩ := bind_eq_ok h
    cases o with
    | none =>
      refine member_ok w t seen s first fun seen' which => ?_
      obtain ⟨none, _⟩ | ⟨_, rfl⟩ := which
      · cases none
      · exact members_ok w t _ rest h
    | some member =>
      obtain ⟨ms', m', others, h⟩ := bind_eq_ok h
      cases h
      refine member_ok w t seen s first fun seen' which => ?_
      obtain ⟨_, rfl⟩ | ⟨none, _⟩ := which
      · exact members_ok w t _ rest others
      · cases none

end

/-- A drawn plan is one of the selections. -/
theorem plan_ok {w : World} {t : TypeDecl} {isList : Bool} {selections : List Selected}
    {plan : Plan} {a b : Trail} (h : runOn (Compose.plan w t isList selections) a = (.ok plan, b))
    (bare : t.isScalar = true → selections = []) : Plans w t isList selections plan a b :=
  plans_of_planWith h bare fun _ run => members_ok w t [] selections run

end Compose

/-! ## What is assembled -/

/-- Records are projected by a lambda over a row, which is made before the members. -/
theorem Plan.assemble_records_ok {isList : Bool} {typeName : String} {ms : List Member}
    {value e : Expr Value} {a b : Trail}
    (made : runOn (Plan.assemble value (.records isList typeName ms)) a = (.ok e, b)) :
    let row : Param := ⟨a.supply + 1, Schema.entityName typeName⟩
    ∃ fs, runOn (assembleMembers row ms) { a with supply := a.supply + 1 } = (.ok fs, b)
      ∧ e = if isList then .seq .select value [.lambda [row] (.record (.type (.record typeName)) fs)]
        else guarded row (.record (.type (.record typeName)) fs) value := by
  rw [Plan.assemble] at made
  obtain ⟨row, c, numbered, made⟩ := bind_eq_ok made
  cases numbered
  obtain ⟨fs, d, members, made⟩ := bind_eq_ok made
  cases made
  exact ⟨fs, members, rfl⟩

/-- Members are assembled one after the other, each from the body of its field for the row. -/
theorem assembleMembers_cons_ok {row : Param} {name : String} {entity : Param} {body : Expr Value}
    {plan : Plan} {ms : List Member} {fs : List (Value × Expr Value)} {a b : Trail}
    (made : runOn (assembleMembers row (.mk name entity body plan :: ms)) a = (.ok fs, b)) :
    ∃ e c fs', runOn (plan.assemble (body.substitute fun p =>
        if p == entity then some (.param row) else none)) a = (.ok e, c)
      ∧ runOn (assembleMembers row ms) c = (.ok fs', b) ∧ fs = (.str name, e) :: fs' := by
  rw [assembleMembers] at made
  obtain ⟨⟨key, e⟩, c, first, made⟩ := bind_eq_ok made
  obtain ⟨fs', d, others, made⟩ := bind_eq_ok made
  cases made
  rw [Member.assemble] at first
  obtain ⟨e', m, projected, first⟩ := bind_eq_ok first
  cases first
  exact ⟨e, c, fs', projected, others, rfl⟩

/-! ## The names of members -/

/-- Members have different names, none of which was seen, and they are names of fields that are
computed inside the query. -/
theorem PlansMembers.names {w : World} {t : TypeDecl} {seen : List String}
    {selections : List Selected} {ms : List Member} {a b : Trail}
    (h : PlansMembers w t seen selections ms a b) :
    (ms.map (·.name)).Nodup ∧ (∀ n ∈ ms.map (·.name), n ∉ seen)
      ∧ ∀ n ∈ ms.map (·.name), n ∈ t.preFields.map (·.name) := by
  induction selections generalizing seen ms a with
  | nil =>
    cases h
    simp
  | cons s rest ih =>
    cases h with
    | passed found passed later => exact ih later
    | @taken _ _ name _ _ _ _ _ _ _ f _ _ _ _ found pre new lends beneath later =>
      obtain ⟨nodup, unseen, known⟩ := ih later
      have isField : f ∈ t.preFields := by
        have := List.mem_of_find?_eq_some found
        simp [TypeDecl.preFields, this, pre]
      have itsName : f.name = name := by simpa using List.find?_some found
      refine ⟨?_, ?_, ?_⟩
      · rw [List.map_cons, List.nodup_cons]
        exact ⟨fun again => unseen name again (by simp), nodup⟩
      · intro n hn
        rcases List.mem_cons.1 hn with rfl | hn
        · exact new
        · exact fun before => unseen n hn (by simp [before])
      · intro n hn
        rcases List.mem_cons.1 hn with rfl | hn
        · exact List.mem_map.2 ⟨f, isField, itsName⟩
        · exact known n hn

end EntityGraph
