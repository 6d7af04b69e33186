import EntityGraph.Proofs.Request.Filled
import EntityGraph.Proofs.Schema.Described

/-!
# Records are filled in exactly

A request is evaluated first, and what it gives is filled in afterwards. This module says of a whole
request what each of the two does. Evaluating it calls record classes, and beyond that only what the
lambdas of the query and of the selected fields call themselves; a function that is to be called
later is no part of the composed expression. Filling in leaves what was computed as it is, and puts
in what those functions give, in the order of the selections. A field may be selected several times
as long as it is a scalar.

The field for the name of a type is one of those that are filled in. Completing gives it to every
entity type that has none of its own, and what it gives is the name.
-/

set_option linter.unusedSectionVars false

namespace EntityGraph

/-! ## Selections that repeat scalars only -/

mutual

/-- Whether beneath a field only scalars are selected several times. -/
def Selected.repeatsScalars (w : World) (t : TypeDecl) : Selected → Bool
  | .field name _ children =>
    (t.findField? name).all fun f => repeatScalars w (w.schema.typeOf f.host) children

/-- Whether of the fields of a type only scalars are selected several times, at every level. -/
def repeatScalars (w : World) (t : TypeDecl) : List Selected → Bool
  | [] => true
  | s :: ss =>
    (ss.all (·.name != s.name)
        || (t.findField? s.name).all fun f => (w.schema.typeOf f.host).isScalar)
      && s.repeatsScalars w t && repeatScalars w t ss

end

variable {w : World}

/-- Two selections of one name are one selection, or those of a scalar. -/
theorem repeated_alike {t : TypeDecl} {ss : List Selected} (h : repeatScalars w t ss = true) :
    ∀ s ∈ ss, ∀ s' ∈ ss, s.name = s'.name → s.children = s'.children
      ∨ ∀ f, t.findField? s.name = some f → (w.schema.typeOf f.host).isScalar = true := by
  induction ss with
  | nil => simp
  | cons s ss ih =>
    rw [repeatScalars, Bool.and_eq_true, Bool.and_eq_true] at h
    obtain ⟨⟨once, -⟩, rest⟩ := h
    have scalar {s' : Selected} (later : s' ∈ ss) (same : s.name = s'.name) :
        ∀ f, t.findField? s.name = some f → (w.schema.typeOf f.host).isScalar = true := by
      rcases Bool.or_eq_true_iff.1 once with other | scalar
      · simpa [same] using List.all_eq_true.1 other s' later
      · intro f found
        simpa [found] using scalar
    intro a ha b hb same
    rcases List.mem_cons.1 ha with rfl | later <;> rcases List.mem_cons.1 hb with rfl | later'
    · exact .inl rfl
    · exact .inr (scalar later' same)
    · exact .inr (same ▸ scalar later same.symm)
    · exact ih rest a later b later' same

mutual

theorem Selected.beneath_evenIn {t : TypeDecl} (s : Selected) (h : s.repeatsScalars w t = true) :
    ∀ f, t.findField? s.name = some f → EvenIn w (w.schema.typeOf f.host) s.children := by
  obtain ⟨name, args, children⟩ := s
  intro f found
  rw [Selected.name] at found
  simp only [Selected.repeatsScalars, found, Option.all_some] at h
  exact .intro (repeated_alike h) (all_beneath_evenIn children h)

theorem all_beneath_evenIn {t : TypeDecl} (ss : List Selected) (h : repeatScalars w t ss = true) :
    ∀ s ∈ ss, ∀ f, t.findField? s.name = some f →
      EvenIn w (w.schema.typeOf f.host) s.children := by
  cases ss with
  | nil => simp
  | cons s ss =>
    rw [repeatScalars, Bool.and_eq_true, Bool.and_eq_true] at h
    obtain ⟨⟨-, beneath⟩, rest⟩ := h
    intro s' hs'
    rcases List.mem_cons.1 hs' with here | later
    · exact here ▸ s.beneath_evenIn beneath
    · exact all_beneath_evenIn ss rest s' later

end

/-- Selections that repeat scalars only are alike wherever they are not those of a scalar. -/
theorem evenIn_of_repeatScalars {t : TypeDecl} {ss : List Selected}
    (h : repeatScalars w t ss = true) : EvenIn w t ss :=
  .intro (repeated_alike h) (all_beneath_evenIn ss h)

/-! ## What a composed request calls -/

mutual

/-- The bodies of the lambdas in a plan, each with its parameter for the entity. -/
def Plan.bodies : Plan → List (Param × Expr Value)
  | .plain => []
  | .records _ _ ms => bodiesOf ms

/-- The bodies of the lambdas in members. -/
def bodiesOf : List Member → List (Param × Expr Value)
  | [] => []
  | .mk _ entity body plan :: ms => (entity, body) :: (plan.bodies ++ bodiesOf ms)

end

/-- Whether the body of a lambda comes out the same by another way of calling, whichever row stands
for its entity. -/
def CallsAlike (w : World) (call : Calling) (entity : Param) (body : Expr Value) : Prop :=
  ∀ row s, let e := body.substitute fun p => if p == entity then some (.param row) else none
    e.eval ⟨w, call⟩ s = e.eval w.host s

section

variable {call : Calling}
  (records : ∀ name vs, call (.type (.record name)) vs = w.host.call (.type (.record name)) vs)

include records

mutual

/-- Where another way of calling makes the same records, an assembled plan comes out the same with
it, as long as the values do that are projected. -/
theorem Plan.eval_calling (plan : Plan) (same : ∀ p ∈ plan.bodies, CallsAlike w call p.1 p.2)
    {value e : Expr Value} {a b : Trail} (made : runOn (plan.assemble value) a = (.ok e, b))
    {s : Scope Value} (values : value.eval ⟨w, call⟩ s = value.eval w.host s) :
    e.eval ⟨w, call⟩ s = e.eval w.host s := by
  cases plan with
  | plain =>
    cases made
    exact values
  | records isList typeName ms =>
    obtain ⟨fs, members, rfl⟩ := Plan.assemble_records_ok made
    have record (s : Scope Value) :
        (Expr.record (.type (.record typeName)) fs).eval ⟨w, call⟩ s
          = (Expr.record (.type (.record typeName)) fs).eval w.host s := by
      rw [Expr.eval, Expr.eval, membersEval_calling ms same members s]
      simp only [records]
    cases isList with
    | false =>
      show (guarded _ _ value).eval ⟨w, call⟩ s = (guarded _ _ value).eval w.host s
      rw [eval_guarded, eval_guarded, values]
      simp only [record]
    | true =>
      show (Expr.seq .select value [.lambda [_] _]).eval ⟨w, call⟩ s
        = (Expr.seq .select value [.lambda [_] _]).eval w.host s
      rw [eval_select, eval_select, values]
      simp only [record]
      rfl

theorem membersEval_calling (ms : List Member)
    (same : ∀ p ∈ bodiesOf ms, CallsAlike w call p.1 p.2)
    {row : Param} {fs : List (Value × Expr Value)} {a b : Trail}
    (made : runOn (assembleMembers row ms) a = (.ok fs, b)) (s : Scope Value) :
    Expr.evalFields ⟨w, call⟩ fs s = Expr.evalFields w.host fs s := by
  cases ms with
  | nil =>
    cases made
    rfl
  | cons m ms =>
    obtain ⟨name, entity, body, plan⟩ := m
    obtain ⟨e, c, fs', projected, others, rfl⟩ := assembleMembers_cons_ok made
    rw [bodiesOf] at same
    rw [Expr.evalFields, Expr.evalFields,
      plan.eval_calling (fun p hp => same p (by simp [hp])) projected
        (same (entity, body) (by simp) row s),
      membersEval_calling ms (fun p hp => same p (by simp [hp])) others s]

end

end

/-- Whether evaluating an expression calls record classes, and beyond that only what the body of a
query calls and what the bodies in a plan call: by any other way of calling it comes out the same if
records do and these bodies do. -/
def World.CallsOnly (w : World) (e body : Expr Value) (plan : Plan) (context : Value) : Prop :=
  ∀ call : Calling,
    (∀ name vs, call (.type (.record name)) vs = w.host.call (.type (.record name)) vs) →
    (∀ p ∈ plan.bodies, CallsAlike w call p.1 p.2) →
    body.eval ⟨w, call⟩ (.bind w.schema.context context .empty)
      = body.eval w.host (.bind w.schema.context context .empty) →
    e.applyLambda ⟨w, call⟩ [context] = w.evaluate e context

namespace QueryDecl

/-- A composed request calls record classes, and beyond that only what the lambdas call that it was
lent. These are the lambda of the query, and those of selected fields that are not computed later. -/
theorem compose_callsOnly {q : QueryDecl} {args : List (String × Value)}
    {selections : List Selected} {paging : Paging} {e : Expr Value} {a b : Trail}
    (composed : runOn (q.compose w args selections paging) a = (.ok e, b)) :
    ∃ body plan m m', LendsQuery w q args body a m
      ∧ Plans w (w.schema.typeOf q.host) q.isList selections plan m m'
      ∧ ∀ context, w.CallsOnly e body plan context := by
  obtain ⟨body, plan, m, m', checked, lends, plans, m'', e', _, made, rfl⟩ := compose_ok composed
  refine ⟨body, plan, m, m', lends, plans, fun context call records same query => ?_⟩
  have values : (paging.apply body).eval ⟨w, call⟩ (.bind w.schema.context context .empty)
      = (paging.apply body).eval w.host (.bind w.schema.context context .empty) := by
    rw [Paging.eval_apply _ checked, Paging.eval_apply _ checked, query]
    rfl
  exact plan.eval_calling records same made values

end QueryDecl

/-! ## Sessions -/

/-- A record that is filled in has the name of its type under the field for it, where that field
gives the name. -/
theorem Materialized.typeName {t : TypeDecl} {ss : List Selected} {u : Value}
    {es : List (String × Value)} (h : Materialized w t false ss u (.record t.name es))
    (entity : t.isScalar = false) {f : FieldDecl}
    (found : t.findField? Schema.typeNameName = some f) (names : f.NamesType t.name)
    (selected : Schema.typeNameName ∈ ss.map (·.name)) :
    (Schema.typeNameName, .str t.name) ∈ es := by
  cases h with
  | scalar scalar => cases entity.symm.trans scalar
  | record order known given pre post =>
    have key : Schema.typeNameName ∈ es.map (·.1) := by rwa [order, List.mem_eraseDups]
    obtain ⟨⟨_, v⟩, hv, rfl⟩ := List.mem_map.1 key
    obtain ⟨s, hs, name⟩ := List.mem_map.1 selected
    obtain ⟨a, b, run⟩ := post s hs f v (by rw [name, found]) names.isPost (by rw [name]; exact hv)
    rw [names.computePost] at run
    cases run
    exact hv

/-- What a request comes to is what its composed expression evaluates to, filled in. -/
theorem World.runQuery_materialized (reached : w.IsReached) (completed : w.schema.completed = true)
    {context : Value} {name : String} {args : List (String × Value)} {selections : List Selected}
    {paging : Paging} {a b : Trail} {v : Value}
    (spare : ∀ q, w.query name = .ok q →
      repeatScalars w (w.schema.typeOf q.host) selections = true)
    (run : runOn (w.runQuery context name args selections paging) a = (.ok v, b)) :
    ∃ q e u c d, w.query name = .ok q
      ∧ runOn (q.compose w args selections paging) a = (.ok e, c)
      ∧ runOn (w.evaluate e context) c = (.ok u, d)
      ∧ Materialized w (w.schema.typeOf q.host) q.isList selections u v := by
  unfold runQuery at run
  obtain ⟨q, a', asked, run⟩ := bind_eq_ok run
  obtain ⟨known, rfl⟩ := outcome_of_run asked
  obtain ⟨e, c, composed, run⟩ := bind_eq_ok run
  obtain ⟨u, d, evaluated, filled⟩ := bind_eq_ok run
  obtain ⟨_, plan, _, _, _, plans, projects, _⟩ :=
    QueryDecl.evaluate_projects (reached.sealed completed) reached.orderly composed
  obtain ⟨_, _, _, projects⟩ := projects _ _ _ _ evaluated
  have even := evenIn_of_repeatScalars (spare q known)
  exact ⟨q, e, u, c, d, known, composed, evaluated,
    Materialize.value_fills even (plans.holds even projects) filled⟩

namespace Session

/-- What a request for a query of a complete schema gives is what its composed expression evaluates
to, with the records filled in: the entries of each come in the order in which they were first
selected, what was evaluated is as it was, and the other selected fields hold what their functions
gave. Evaluating the expression calls none of these functions, unless the lambda of the query or of
another field does. For an entity type that was not declared with a field for its name, this field
gives the name. -/
theorem records_materialized (v : World) (parameter : Param) (supply : Nat) (past : List Event) :
    let s := (start v parameter supply).after past
    let w := s.world
    w.schema.completed = true →
      (∀ (context : Value) (name : String) (args : List (String × Value))
          (selections : List Selected) (paging : Paging) (R : Value) (t : Session),
        (∀ q, w.query name = .ok q →
          repeatScalars w (w.schema.typeOf q.host) selections = true) →
        runOn (Event.execute context name args selections paging).act s = (.ok (.value R), t) →
          ∃ q e u c d, w.query name = .ok q
            ∧ runOn (q.compose w args selections paging) w.trail = (.ok e, c)
            ∧ runOn (w.evaluate e context) c = (.ok u, d)
            ∧ Materialized w (w.schema.typeOf q.host) q.isList selections u R
            ∧ ∃ body plan a b, LendsQuery w q args body w.trail a
              ∧ Plans w (w.schema.typeOf q.host) q.isList selections plan a b
              ∧ w.CallsOnly e body plan context)
      ∧ ∃ before later, past = before ++ .complete :: later
        ∧ ((start v parameter supply).after before).world.schema.completed = false
        ∧ ((start v parameter supply).after (before ++ [.complete])).world.schema.completed = true
        ∧ ∀ t ∈ w.schema.types, t.isScalar = false →
          (∀ t₀ ∈ ((start v parameter supply).after before).world.schema.types,
            t₀.host = t.host → t₀.findField? Schema.typeNameName = none) →
          ∀ selections u es, Materialized w t false selections u (.record t.name es) →
            Schema.typeNameName ∈ selections.map (·.name) →
            (Schema.typeNameName, .str t.name) ∈ es := by
  intro s w completed
  have reached : w.IsReached := ⟨v, parameter, supply, past, rfl⟩
  constructor
  · intro context name args selections paging R t spare run
    rw [Event.act, runOn_map, runOn_requesting, World.runOn_executeQuery completed] at run
    dsimp only at run
    cases ran : runOn (w.runQuery context name args selections paging) w.trail with
    | mk r b =>
      rw [ran] at run
      cases r with
      | error e => cases run
      | ok R' =>
        cases run
        obtain ⟨q, e, u, c, d, known, composed, evaluated, materialized⟩ :=
          World.runQuery_materialized reached completed spare ran
        obtain ⟨body, plan, a, b, lends, plans, calls⟩ := QueryDecl.compose_callsOnly composed
        exact ⟨q, e, u, c, d, known, composed, evaluated, materialized, body, plan, a, b, lends,
          plans, calls context⟩
  · obtain ⟨before, later, split, isOpen, u, settled, closed⟩ :=
      completed_once _ (idle_start v parameter supply) rfl past completed
    have since : ((start v parameter supply).after (before ++ [.complete])).world.schema.completed
        = true := by
      rw [closed]
      rfl
    have before_reached : ((start v parameter supply).after before).world.IsReached :=
      ⟨v, parameter, supply, before, rfl⟩
    obtain ⟨n, hosts, same⟩ : SameSchema u.closed w := by
      have whole : s = ((start v parameter supply).after (before ++ [.complete])).after later := by
        rw [← after_append, List.append_assoc]
        exact congrArg _ split
      show SameSchema _ s.world
      rw [whole, ← closed]
      exact sameSchema_after later since
    refine ⟨before, later, split, isOpen, since, fun t ht entity undeclared ss u' es filled sel => ?_⟩
    rw [same] at ht
    obtain ⟨f, found, names⟩ := Schema.settle_named settled before_reached.orderly
      (before_reached.unprojected isOpen) ht entity undeclared
    exact filled.typeName entity found names sel

/-- Users with a friend, who is the user again. -/
def befriended : List Event :=
  let user : HostType := .declared "User"
  let itself : Value :=
    .ofTree (.lambda [⟨0, "context"⟩, QueryDecl.sampleEntity] (.param QueryDecl.sampleEntity))
  [.addType user none "",
    .addField user "value" itself (some (.builtin .str)) false "",
    .addField user "friend" itself (some user) false "",
    .addQuery .unmodified "user" user (.ofTree (.lambda [⟨0, "context"⟩] (.lit (.str "x")))) "",
    .complete]

/-- Fields of a user, some of them twice, and of the friend. -/
def chosen : List Selected :=
  [.field "__typename" [] [], .field "value" [] [],
    .field "friend" [] [.field "value" [] [], .field "__typename" [] []], .field "value" [] [],
    .field "__typename" [] []]

/-- The type name and the names of the entries of a record that is given. -/
def recordNames? : Outcome Answer → Option (String × List String)
  | .ok (.value (.record t es)) => some (t, es.map (·.1))
  | _ => none

theorem eq_of_recordNames? {r : Outcome Answer} {t : String} {ns : List String}
    (h : recordNames? r = some (t, ns)) :
    ∃ es, r = .ok (.value (.record t es)) ∧ es.map (·.1) = ns := by
  unfold recordNames? at h
  split at h
  · next t' es =>
    cases h
    exact ⟨es, rfl, rfl⟩
  · cases h

/-- Whether a query gives single users, with fields of which only scalars are chosen several times. -/
def givesFriend (w : World) (q : QueryDecl) : Bool :=
  let t := w.schema.typeOf q.host
  !q.isList && t.name == "User" && !t.isScalar && repeatScalars w t chosen

theorem friend_materialized :
    let s := (start default ⟨0, "context"⟩ 8).after befriended
    ∃ es t, runOn (Event.execute .none "user" [] chosen .all).act s
        = (.ok (.value (.record "User" es)), t)
      ∧ es.map (·.1) = ["__typename", "value", "friend"]
      ∧ ("__typename", .str "User") ∈ es := by
  -- the schema itself is large, so only the facts about it that count are given to the proof
  have filled (past : List Event) (s : Session)
      (h : (start default ⟨0, "context"⟩ 8).after past = s)
      (completed : s.world.schema.completed = true)
      (known : (s.world.query "user").toOption.any (givesFriend s.world) = true)
      (unnamed : (List.range past.length).all (fun n =>
        ((start default ⟨0, "context"⟩ 8).after (past.take n)).world.schema.types.all fun t =>
          (t.findField? Schema.typeNameName).isNone) = true)
      (shown : recordNames? (runOn (Event.execute .none "user" [] chosen .all).act s).1
        = some ("User", ["__typename", "value", "friend"])) :
      ∃ es t, runOn (Event.execute .none "user" [] chosen .all).act s
          = (.ok (.value (.record "User" es)), t)
        ∧ es.map (·.1) = ["__typename", "value", "friend"]
        ∧ ("__typename", .str "User") ∈ es := by
    subst h
    obtain ⟨fills, before, later, split, _, _, names⟩ :=
      records_materialized default ⟨0, "context"⟩ 8 past completed
    obtain ⟨es, answer, keys⟩ := eq_of_recordNames? shown
    have gives : ∀ q, ((start default ⟨0, "context"⟩ 8).after past).world.query "user" = .ok q →
        givesFriend ((start default ⟨0, "context"⟩ 8).after past).world q = true := by
      intro q found
      rw [found] at known
      exact known
    obtain ⟨q, e, u, c, d, found, _, _, materialized, _⟩ := fills .none "user" [] chosen .all _ _
      (fun q found => by
        have := gives q found
        simp only [givesFriend, Bool.and_eq_true] at this
        exact this.2) (Prod.ext answer rfl)
    have user := gives q found
    simp only [givesFriend, Bool.and_eq_true, Bool.not_eq_true', beq_iff_eq] at user
    obtain ⟨⟨⟨isList, name⟩, entity⟩, -⟩ := user
    rw [isList, ← name] at materialized
    have short : before.length < past.length := by
      rw [split, List.length_append, List.length_cons]
      omega
    have prefixed : past.take before.length = before := by rw [split, List.take_left]
    have undeclared := List.all_eq_true.1 unnamed before.length (List.mem_range.2 short)
    rw [prefixed, List.all_eq_true] at undeclared
    have named := names _ (typeOf_mem entity) entity
      (fun t₀ ht₀ _ => by simpa using undeclared t₀ ht₀) _ _ _ materialized (by decide)
    rw [name] at named
    exact ⟨es, _, Prod.ext answer rfl, keys, named⟩
  exact filled befriended _ rfl (by decide +kernel) (by decide +kernel) (by decide +kernel)
    (by decide +kernel)

end Session

end EntityGraph
