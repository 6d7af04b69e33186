import EntityGraph.Proofs.Request.Composed

/-!
# What a composed request evaluates to

The records that a composed request gives are described here by rules that follow its plan. A single
value that is missing stays missing, and any other becomes a record; so does a sequence, which
becomes a list of as many records as it has elements. In a record, each member is the projection of
what the body of its lambda gives for the entity.

An element of a sequence is not guarded as a single value is. A missing element becomes a record
like any other: that of the missing entity.
-/

set_option linter.unusedSectionVars false

namespace EntityGraph

theorem Value.eq_none_of_isNone {v : Value} (h : v.isNone = true) : v = .none := by
  cases v with
  | none => rfl
  | _ => cases h

/-- Whether the body of a lambda gives a value for an entity, with a row in the place of the
entity. -/
def Gives (w : World) (entity : Param) (body : Expr Value) (v x : Value) : Prop :=
  ∃ (row : Param) (s : Scope Value) (a b : Trail), s.lookup? row = some v
    ∧ runOn ((body.substitute fun p => if p == entity then some (.param row) else none).eval
        w.host s) a = (.ok x, b)

mutual

/-- Whether a value is projected into another by a plan. -/
inductive Projects (w : World) : Plan → Value → Value → Prop
  | plain {v : Value} : Projects w .plain v v
  | missing {isList : Bool} {name : String} {ms : List Member} :
      Projects w (.records isList name ms) .none .none
  | record {name : String} {ms : List Member} {v : Value} {es : List (String × Value)}
      (present : v.isNone = false) (entries : ProjectsAll w v ms es) :
      Projects w (.records false name ms) v (.record name es)
  | records {name : String} {ms : List Member} {v : Value} {vs us : List Value} {a : Trail}
      (present : v.isNone = false) (elements : Value.elements (w.after a) v = .ok vs)
      (each : ProjectsEach w name ms vs us) : Projects w (.records true name ms) v (.list us)

/-- Whether elements are projected into records. Nothing is asked of the elements: a missing one has
a record too. -/
inductive ProjectsEach (w : World) : String → List Member → List Value → List Value → Prop
  | nil {name : String} {ms : List Member} : ProjectsEach w name ms [] []
  | cons {name : String} {ms : List Member} {v : Value} {es : List (String × Value)}
      {vs us : List Value} (entries : ProjectsAll w v ms es)
      (others : ProjectsEach w name ms vs us) :
      ProjectsEach w name ms (v :: vs) (.record name es :: us)

/-- Whether entries are those of members for an entity. -/
inductive ProjectsAll (w : World) : Value → List Member → List (String × Value) → Prop
  | nil {v : Value} : ProjectsAll w v [] []
  | cons {v : Value} {name : String} {entity : Param} {body : Expr Value} {plan : Plan}
      {ms : List Member} {x u : Value} {es : List (String × Value)}
      (gives : Gives w entity body v x) (projects : Projects w plan x u)
      (others : ProjectsAll w v ms es) :
      ProjectsAll w v (.mk name entity body plan :: ms) ((name, u) :: es)

end

variable {w : World}

theorem ProjectsAll.names {v : Value} {ms : List Member} {es : List (String × Value)}
    (h : ProjectsAll w v ms es) : es.map (·.1) = ms.map (·.name) := by
  induction ms generalizing es with
  | nil =>
    cases h
    rfl
  | cons m ms ih =>
    cases h with
    | cons gives projects others => rw [List.map_cons, ih others, List.map_cons, Member.name]

/-- Exactly the missing value is projected into the missing value. -/
theorem Projects.isNone_eq {plan : Plan} {v u : Value} (h : Projects w plan v u) :
    u.isNone = v.isNone := by
  cases h with
  | plain => rfl
  | missing => rfl
  | record present entries => exact present.symm
  | records present elements each => exact present.symm

theorem ProjectsEach.record {name : String} {ms : List Member} {vs us : List Value}
    (h : ProjectsEach w name ms vs us) {u : Value} (hu : u ∈ us) :
    ∃ v es, u = .record name es ∧ ProjectsAll w v ms es := by
  induction vs generalizing us with
  | nil =>
    cases h
    cases hu
  | cons v vs ih =>
    cases h with
    | cons entries others =>
      rcases List.mem_cons.1 hu with rfl | hu
      · exact ⟨_, _, rfl, entries⟩
      · exact ih others hu

/-- Where records are made of elements, none of them is missing. -/
theorem Projects.present_of_list {isList : Bool} {name : String} {ms : List Member} {v : Value}
    {us : List Value} (h : Projects w (.records isList name ms) v (.list us)) :
    ∀ u ∈ us, u.isNone = false := by
  cases h with
  | records present elements each =>
    intro u hu
    obtain ⟨_, _, rfl, _⟩ := each.record hu
    rfl

theorem ProjectsEach.of_mapM {name : String} {ms : List Member} {f : Value → Making Value}
    (one : ∀ v u a b, runOn (f v) a = (.ok u, b) →
      ∃ es, u = .record name es ∧ ProjectsAll w v ms es)
    {vs us : List Value} {a b : Trail} (h : runOn (vs.mapM f) a = (.ok us, b)) :
    ProjectsEach w name ms vs us := by
  induction vs generalizing us a b with
  | nil =>
    rw [List.mapM_nil] at h
    cases h
    exact .nil
  | cons v vs ih =>
    rw [List.mapM_cons] at h
    obtain ⟨u, m, first, h⟩ := bind_eq_ok h
    obtain ⟨us', m', others, h⟩ := bind_eq_ok h
    cases h
    obtain ⟨es, rfl, entries⟩ := one v u _ _ first
    exact .cons entries (ih others)

/-- Where a value is missing, its projection gives the missing value and nothing of the members is
evaluated. -/
theorem Plan.eval_missing (plan : Plan) {value e : Expr Value} {a b : Trail}
    (made : runOn (plan.assemble value) a = (.ok e, b)) {s : Scope Value} {c d : Trail}
    (missing : runOn (value.eval w.host s) c = (.ok .none, d)) :
    runOn (e.eval w.host s) c = (.ok .none, d) := by
  cases plan with
  | plain =>
    cases made
    exact missing
  | records isList typeName ms =>
    obtain ⟨fs, _, rfl⟩ := Plan.assemble_records_ok made
    cases isList with
    | false =>
      change runOn ((guarded _ _ value).eval w.host s) c = _
      rw [eval_guarded, runOn_bind_ok missing]
      rfl
    | true =>
      change runOn ((Expr.seq .select value [.lambda _ _]).eval w.host s) c = _
      rw [Expr.eval, runOn_bind_ok missing]
      rfl

section

variable (sealed : Sealed w) (orderly : Orderly w.schema.types)

include sealed orderly

mutual

/-- The projection of a value evaluates to what its plan projects the value into. The value is
evaluated first, once, and in the scope of the projection. -/
theorem Plan.projects (plan : Plan) (fits : plan.Fits w) {value e : Expr Value} {a b : Trail}
    (made : runOn (plan.assemble value) a = (.ok e, b)) {s : Scope Value} {u : Value}
    {c d : Trail} (run : runOn (e.eval w.host s) c = (.ok u, d)) :
    ∃ v c', runOn (value.eval w.host s) c = (.ok v, c') ∧ Projects w plan v u := by
  cases plan with
  | plain =>
    cases made
    exact ⟨u, d, run, .plain⟩
  | records isList typeName ms =>
    obtain ⟨⟨t, declared, entity, rfl, nodup, known⟩, fit⟩ := fits
    let row : Param := ⟨a.supply + 1, Schema.entityName t.name⟩
    obtain ⟨fs, members, rfl⟩ := Plan.assemble_records_ok made
    -- Whatever the row stands for, its record holds the members, and the class takes them. A row of
    -- a sequence is bound without being asked whether it is missing.
    have record (v u : Value) {c d : Trail}
        (run : runOn ((Expr.record (.type (.record t.name)) fs).eval w.host (.bind row v s)) c
          = (.ok u, d)) : ∃ es, u = .record t.name es ∧ ProjectsAll w v ms es := by
      rw [Expr.eval] at run
      obtain ⟨pairs, m, entries, called⟩ := bind_eq_ok run
      obtain ⟨es, rfl, all⟩ :=
        membersProject ms fit members (show (Scope.bind row v s).lookup? row = some v by
          simp [Scope.lookup?]) entries
      rw [← all.names] at nodup known
      cases (runOn_call_record sealed orderly declared entity nodup known m).symm.trans called
      exact ⟨es, rfl, all⟩
    cases isList with
    | false =>
      change runOn ((guarded row _ value).eval w.host s) c = _ at run
      rw [eval_guarded] at run
      obtain ⟨v, m, first, run⟩ := bind_eq_ok run
      refine ⟨v, m, first, ?_⟩
      split at run
      · next missing =>
        cases run
        rw [Value.eq_none_of_isNone missing]
        exact .missing
      · next present =>
        obtain ⟨es, rfl, entries⟩ := record v u run
        exact .record (by simpa using present) entries
    | true =>
      change runOn ((Expr.seq .select value [.lambda [row] _]).eval w.host s) c = _ at run
      rw [Expr.eval] at run
      obtain ⟨v, m, first, run⟩ := bind_eq_ok run
      refine ⟨v, m, first, ?_⟩
      split at run
      · next missing =>
        cases run
        rw [Value.eq_none_of_isNone missing]
        exact .missing
      · next present =>
        obtain ⟨now, m', current, run⟩ := bind_eq_ok run
        cases current
        obtain ⟨vs, m'', listed, run⟩ := bind_eq_ok run
        obtain ⟨elements, rfl⟩ := outcome_of_run listed
        obtain ⟨us, _, each, run⟩ := bind_eq_ok run
        cases run
        refine .records (by simpa using present) elements (.of_mapM (fun v u a b run => ?_) each)
        exact record v u run

theorem membersProject (ms : List Member) (fit : MembersFit w ms) {row : Param}
    {fs : List (Value × Expr Value)} {a b : Trail}
    (made : runOn (assembleMembers row ms) a = (.ok fs, b)) {s : Scope Value} {v : Value}
    (here : s.lookup? row = some v) {pairs : List Value} {c d : Trail}
    (run : runOn (Expr.evalFields w.host fs s) c = (.ok pairs, d)) :
    ∃ es, pairs = es.map Value.entryPair ∧ ProjectsAll w v ms es := by
  cases ms with
  | nil =>
    cases made
    cases run
    exact ⟨[], rfl, .nil⟩
  | cons m ms =>
    obtain ⟨name, entity, body, plan⟩ := m
    obtain ⟨e, a', fs', projected, others, rfl⟩ := assembleMembers_cons_ok made
    rw [Expr.evalFields] at run
    obtain ⟨u, m, value, run⟩ := bind_eq_ok run
    obtain ⟨pairs', m', later, run⟩ := bind_eq_ok run
    cases run
    obtain ⟨x, m'', given, projects⟩ := plan.projects fit.1 projected value
    obtain ⟨es, rfl, entries⟩ := membersProject ms fit.2 others here later
    exact ⟨(name, u) :: es, rfl, .cons ⟨row, s, _, _, here, given⟩ projects entries⟩

end

end

namespace QueryDecl

theorem evaluate_projects (sealed : Sealed w) (orderly : Orderly w.schema.types) {q : QueryDecl}
    {args : List (String × Value)} {selections : List Selected} {paging : Paging} {e : Expr Value}
    {a b : Trail} (composed : runOn (q.compose w args selections paging) a = (.ok e, b)) :
    ∃ body plan m m', LendsQuery w q args body a m
      ∧ Plans w (w.schema.typeOf q.host) q.isList selections plan m m'
      ∧ (∀ context u c d, runOn (w.evaluate e context) c = (.ok u, d) →
        ∃ v c', runOn (w.evaluate (.lambda [w.schema.context] (paging.apply body)) context) c
            = (.ok v, c')
          ∧ Projects w plan v u)
      ∧ ∀ context c d,
        runOn (w.evaluate (.lambda [w.schema.context] (paging.apply body)) context) c
          = (.ok .none, d) → runOn (w.evaluate e context) c = (.ok .none, d) := by
  obtain ⟨body, plan, m, m', _, lends, plans, m'', e', _, made, rfl⟩ := compose_ok composed
  exact ⟨body, plan, m, m', lends, plans,
    fun context u c d run => plan.projects sealed orderly (plans.fits typeOf_mem) made run,
    fun context c d missing => plan.eval_missing made missing⟩

/-- Whether a computation gives a list whose first element is one of these. -/
def startsWith (w : World) (p : Value → Bool) (x : Making Value) : Bool :=
  match (runOn x w.trail).1 with
  | .ok (.list (v :: _)) => p v
  | _ => false

end QueryDecl

end EntityGraph
