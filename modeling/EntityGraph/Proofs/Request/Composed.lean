import EntityGraph.Proofs.Request.Resolving
import EntityGraph.Proofs.Eval.Filtering
import EntityGraph.Proofs.Schema.History

/-!
# Requests come out as their resolution

What a request is composed into evaluates like resolving it by its plan. Beyond the records this
takes the wanted elements of a sequence, and the lambda of the query, whose body stands in the
composed lambda as it is.

A schema none of whose lambdas shadows its entity has plain plans only, so all of its requests come
out as they resolve. A lambda that was captured never does; one that was built by hand may.
-/

namespace EntityGraph

/-! ## Pagination -/

namespace Paging

/-- An operation that takes a number of elements and no function. -/
theorem eval_slice (h : Host) {op : SeqOp} (plain : op.takesFunction = false)
    (passes : op.passesMissing = true) (e : Expr Value) (count : Value) (s : Scope Value) :
    (Expr.seq op e [.lit count]).eval h s
      = e.eval h s >>= fun v =>
        if v.isNone then pure .none
        else (do
          let vs ← Value.elements (← Making.now h.world) v
          return ← Eval.slice (← Making.now h.world) op vs count) := by
  rw [Expr.eval]
  simp only [plain, passes, Expr.evalFirst, Expr.eval, if_true, Bool.false_eq_true, if_false,
    pure_bind]

/-- A bound on a sequence cuts what the sequence evaluates to. -/
theorem eval_bounded (h : Host) {op : SeqOp} {cut : Nat → List Value → List Value}
    (hop : op = .skip ∧ cut = List.drop ∨ op = .take ∧ cut = List.take) {bound : Value}
    (isBound : isBound bound = true) (e : Expr Value) (s : Scope Value) :
    (if bound.isNone then e else .seq op e [.lit bound]).eval h s
      = e.eval h s >>= cutOne h.world cut bound := by
  cases bound with
  | none =>
    have same : e.eval h s >>= cutOne h.world cut .none = e.eval h s := bind_pure _
    rw [same]
    rfl
  | int n =>
    have sliced : ∀ w vs, Eval.slice w op vs (.int n) = .ok (.list (cut n.toNat vs)) := by
      intro w vs
      rw [Eval.slice, Eval.countOf_int]
      obtain ⟨rfl, rfl⟩ | ⟨rfl, rfl⟩ := hop <;> rfl
    have run : ∀ vs, (do return ← Eval.slice (← Making.now h.world) op vs (.int n))
        = (pure (.list (cut n.toNat vs)) : Making Value) := by
      intro vs
      simp only [sliced]
      rfl
    rw [if_neg (by simp [Value.isNone]), eval_slice h (by rcases hop with ⟨rfl, _⟩ | ⟨rfl, _⟩ <;> rfl)
      (by rcases hop with ⟨rfl, _⟩ | ⟨rfl, _⟩ <;> rfl)]
    simp only [run]
    rfl
  | _ => cases isBound

/-- What a query that may be paginated so asks of its bounds. -/
theorem check_ok {p : Paging} {q : QueryDecl} (checked : p.check q = .ok ()) :
    isBound p.offset = true ∧ isBound p.limit = true
      ∧ (q.isList = false → p.offset.isNone = true ∧ p.limit.isNone = true) := by
  unfold check at checked
  split at checked
  · cases checked
  · next single =>
    split at checked
    · cases checked
    · next offset =>
      split at checked
      · cases checked
      · next limit =>
        refine ⟨by simpa using offset, by simpa using limit, fun isSingle => ?_⟩
        simpa [isSingle] using single

/-- The wanted elements are cut out of what a sequence evaluates to. -/
theorem eval_apply (h : Host) {p : Paging} {q : QueryDecl} (checked : p.check q = .ok ())
    (e : Expr Value) (s : Scope Value) : (p.apply e).eval h s = e.eval h s >>= p.cut h.world := by
  obtain ⟨offset, limit, _⟩ := check_ok checked
  have taken := eval_bounded h (.inr ⟨rfl, rfl⟩) limit
    (if p.offset.isNone then e else .seq .skip e [.lit p.offset]) s
  rw [eval_bounded h (.inl ⟨rfl, rfl⟩) offset, bind_assoc] at taken
  exact taken

theorem alike_cutOne (w : World) (cut : Nat → List Value → List Value) (bound v : Value) :
    Alike (cutOne w cut bound v) (cutOne w cut bound v) := by
  unfold cutOne
  split
  · refine alike_ite (fun _ => alike_pure _) fun _ => ?_
    refine alike_bind (alike_now w) fun now => ?_
    exact alike_bind (alike_outcome rfl) fun vs => alike_pure _
  · exact alike_pure _

/-- The wanted elements of what a sequence evaluates to. -/
theorem alike_cut (h : Host) {p : Paging} {q : QueryDecl} (checked : p.check q = .ok ())
    {x : Making Value} {e : Expr Value} {s : Scope Value} (alike : Alike x (e.eval h s)) :
    Alike (x >>= p.cut h.world) ((p.apply e).eval h s) := by
  rw [eval_apply h checked]
  refine alike_bind alike fun v => ?_
  exact alike_bind (alike_cutOne _ _ _ _) fun u => alike_cutOne _ _ _ _

end Paging

/-! ## Requests -/

/-- The query with a name is a declared one. -/
theorem World.mem_of_query {w : World} {name : String} {q : QueryDecl}
    (found : w.query name = .ok q) : q ∈ w.schema.queries ∧ q.name = name := by
  unfold query Schema.findQuery? at found
  split at found
  · next found' =>
    cases found
    exact ⟨List.mem_of_find?_eq_some found', by simpa using List.find?_some found'⟩
  · cases found

/-- An expression evaluates alike to itself. -/
theorem Expr.alike_eval_self (w : World) (e : Expr Value) (s : Scope Value) :
    Alike (e.eval w.host s) (e.eval w.host s) := by
  have alike := e.alike_eval (h := w.host) (Value.alike_call w) (renames_id e.nodes s)
  rw [rename_id] at alike
  exact alike

namespace QueryDecl

theorem compose_ok {w : World} {q : QueryDecl} {args : List (String × Value)}
    {selections : List Selected} {paging : Paging} {e : Expr Value} {a b : Trail}
    (h : runOn (q.compose w args selections paging) a = (.ok e, b)) :
    ∃ body plan m m', paging.check q = .ok () ∧ LendsQuery w q args body a m
      ∧ Plans w (w.schema.typeOf q.host) q.isList selections plan m m'
      ∧ ∃ m'' e', plan.ceiling ≤ m''.supply
        ∧ runOn (plan.assemble (paging.apply body)) m'' = (.ok e', b)
        ∧ e = .lambda [w.schema.context] e' := by
  unfold compose at h
  obtain ⟨_, a', checked, h⟩ := bind_eq_ok h
  rw [runOn_outcome] at checked
  injection checked with checked same
  subst same
  obtain ⟨body, m, value, h⟩ := bind_eq_ok h
  have lends : LendsQuery w q args body a m := by
    obtain ⟨bound, n, binds, value⟩ := bind_eq_ok value
    obtain ⟨f, n', gives, value⟩ := bind_eq_ok value
    refine ⟨bound, n, binds, ?_⟩
    rw [gives]
    split at value
    · split at value
      · next ps b own =>
        cases value
        obtain rfl : ps = [w.schema.context] := by simpa using own
        rfl
      · cases value
    · cases value
  by_cases bare : ((w.schema.typeOf q.host).isScalar && !selections.isEmpty) = true
  · simp only [bare, if_true] at h
    cases h
  · simp only [bare, Bool.false_eq_true, if_false] at h
    obtain ⟨plan, m', drawn, h⟩ := bind_eq_ok h
    obtain ⟨_, m'', passed, h⟩ := bind_eq_ok h
    obtain ⟨e', n, made, h⟩ := bind_eq_ok h
    cases h
    cases passed
    refine ⟨body, plan, m, m', checked, lends, Compose.plan_ok drawn ?_, _, e', ?_, made, rfl⟩
    · simpa using bare
    · show plan.ceiling ≤ max m'.supply (max _ plan.ceiling)
      omega

end QueryDecl

/-- Whether a field is declared with a lambda that does not shadow its entity, or without one. -/
def FieldDecl.isPlain (f : FieldDecl) : Bool :=
  match f.source with
  | .fixed (.lambda [_, entity] body) => !body.shadows entity
  | .fixed _ | .post _ => true
  | .factory _ => false

theorem Lends.isPlain {w : World} {t : TypeDecl} {f : FieldDecl} {args : List (String × Value)}
    {entity : Param} {body : Expr Value} {a b : Trail} (h : Lends w t f args entity body a b)
    (own : f.isPlain = true) : body.shadows entity = false := by
  obtain ⟨bound, m, _, gives⟩ := h
  unfold FieldDecl.isPlain at own
  unfold FieldDecl.expression at gives
  split at gives
  · next e source =>
    cases gives
    simpa [source] using own
  · next g source => simp [source] at own
  · cases gives

/-- No field of a schema shadows its entity. -/
def World.isPlain (w : World) : Bool := w.schema.types.all fun t => t.fields.all (·.isPlain)

theorem World.field_isPlain {w : World} (plain : w.isPlain = true) {t : TypeDecl} {f : FieldDecl}
    (declared : t ∈ w.schema.types) (member : f ∈ t.fields) : f.isPlain = true :=
  List.all_eq_true.1 (List.all_eq_true.1 plain t declared) f member

mutual

/-- Where no field shadows its entity every plan is plain. -/
theorem Plans.isPlain {w : World} (plain : w.isPlain = true) {t : TypeDecl} {isList : Bool}
    {selections : List Selected} {plan : Plan} {a b : Trail}
    (h : Plans w t isList selections plan a b)
    (declared : t.isScalar = false → t ∈ w.schema.types) : plan.isPlain = true := by
  cases h with
  | scalar => rfl
  | entity entity selected members => exact members.arePlain plain (declared entity)

theorem PlansMembers.arePlain {w : World} (plain : w.isPlain = true) {t : TypeDecl}
    {seen : List String} {selections : List Selected} {ms : List Member} {a b : Trail}
    (h : PlansMembers w t seen selections ms a b) (declared : t ∈ w.schema.types) :
    arePlain ms = true := by
  cases h with
  | nil => rfl
  | passed found passed later => exact later.arePlain plain declared
  | taken found pre new lends beneath later =>
    have own := lends.isPlain
      (World.field_isPlain plain declared (List.mem_of_find?_eq_some found))
    rw [EntityGraph.arePlain, Member.isPlain, own, beneath.isPlain plain typeOf_mem,
      later.arePlain plain declared]
    rfl

end

namespace QueryDecl

/-- The composed lambda of a request comes out like resolving the request field by field: like the
lambda of the query, and for each record like the lambdas of the selected fields, unless one of these
declares its entity once more and uses it there. -/
theorem composed_resolves {w : World} (reached : w.IsReached)
    (completed : w.schema.completed = true) {q : QueryDecl} {args : List (String × Value)}
    {selections : List Selected} {paging : Paging} {e : Expr Value} {a b : Trail}
    (composed : runOn (q.compose w args selections paging) a = (.ok e, b)) :
    ∃ body plan m m', LendsQuery w q args body a m
      ∧ Plans w (w.schema.typeOf q.host) q.isList selections plan m m'
      ∧ (plan.isPlain = true → ∀ context,
        Alike (w.resolve body paging plan context) (w.evaluate e context)) := by
  obtain ⟨body, plan, m, m', checked, lends, plans, m'', e', new, made, rfl⟩ :=
    compose_ok composed
  refine ⟨body, plan, m, m', lends, plans, fun plain context => ?_⟩
  have fits := plans.fits typeOf_mem
  obtain ⟨_, resolved⟩ :=
    plan.alike_assemble (reached.sealed completed) reached.orderly fits plain (Nat.le_refl _) new
    made
  have wanted := Paging.alike_cut w.host checked
    (Expr.alike_eval_self w body (.bind w.schema.context context .empty))
  have grounds : Grounds w context plan.ceiling (.bind w.schema.context context .empty) :=
    fun p _ => by simp [Scope.lookup?]
  have alike := resolved _ grounds _ wanted
  rw [bind_assoc] at alike
  exact alike

/-- The parameter for the entity in the examples. -/
def sampleEntity : Param := ⟨7, "e"⟩

/-- The query of the examples, which gives a text as a user. -/
def sampleQuery : QueryDecl :=
  { name := "user", description := "", host := .declared "User", shape := .none
    mode := .unmodified, source := .fixed (.lambda [⟨0, "context"⟩] (.lit (.str "x"))) }

/-- A complete schema of users with one field, whose lambda has this body. -/
def sample (body : Expr Value) : World :=
  let lambda : Expr Value := .lambda [⟨0, "context"⟩, sampleEntity] body
  ((Session.start default ⟨0, "context"⟩ 8).after
    [.addType (.declared "User") none "",
      .addField (.declared "User") "value" (.ofTree lambda) (some (.builtin .str)) false "",
      .addQuery .unmodified "user" (.declared "User")
        (.ofTree (.lambda [⟨0, "context"⟩] (.lit (.str "x")))) "",
      .complete]).world

theorem sample_isReached (body : Expr Value) : (sample body).IsReached :=
  ⟨default, _, _, _, rfl⟩

/-- A complete schema of users each of which is its own best one. One query gives a user, another one
gives several, of which the first is missing. -/
def linked : World :=
  let context : Param := ⟨0, "context"⟩
  let user : HostType := .declared "User"
  let itself : Value := .ofTree (.lambda [context, sampleEntity] (.param sampleEntity))
  ((Session.start default context 8).after
    [.addType user none "",
      .addField user "value" itself (some (.builtin .str)) false "",
      .addField user "best" itself (some user) false "",
      .addQuery .unmodified "user" user (.ofTree (.lambda [context] (.lit (.str "x")))) "",
      .addQuery .modified "users" user
        (.ofTree (.lambda [context] (.lit (.list [.none, .str "x"])))) "",
      .complete]).world

theorem linked_isReached : linked.IsReached := ⟨default, _, _, _, rfl⟩

theorem sample_composed_resolves :
    let w := sample (.param sampleEntity)
    ∃ e body plan b,
      runOn (sampleQuery.compose w [] [.field "value" [] []] .all) w.trail = (.ok e, b)
        ∧ ∀ context, Alike (w.resolve body .all plan context) (w.evaluate e context) := by
  -- the schema itself is large, so only the facts about it that count are given to the proof
  have resolves (w : World) (reached : w.IsReached) (completed : w.schema.completed = true)
      (plain : w.isPlain = true)
      (succeeds :
        (runOn (sampleQuery.compose w [] [.field "value" [] []] .all) w.trail).1.isOk = true) :
      ∃ e body plan b,
        runOn (sampleQuery.compose w [] [.field "value" [] []] .all) w.trail = (.ok e, b)
          ∧ ∀ context, Alike (w.resolve body .all plan context) (w.evaluate e context) := by
    cases composed : runOn (sampleQuery.compose w [] [.field "value" [] []] .all) w.trail with
    | mk r b =>
      cases r with
      | error f =>
        rw [composed] at succeeds
        cases succeeds
      | ok e =>
        obtain ⟨body, plan, m, m', _, plans, resolves⟩ :=
          composed_resolves reached completed composed
        exact ⟨e, body, plan, b, rfl, resolves (plans.isPlain plain typeOf_mem)⟩
  exact resolves (sample (.param sampleEntity)) (sample_isReached _) (by decide +kernel)
    (by decide +kernel) (by decide +kernel)

/-- What a computation gives as the only entry of a record, if that is a number or a text. -/
def sampleEntry (w : World) (x : Making Value) : Option Int × Option String :=
  match (runOn x w.trail).1 with
  | .ok (.record _ [(_, v)]) => (v.asInt?, v.text?)
  | _ => (none, none)

/-- A lambda that is applied inside the body and declares the entity once more. By itself the body
gives one, but the composed request gives the entity. -/
theorem shadowed_entity_resolves_otherwise :
    let w := sample (.invoke (.lambda [sampleEntity] (.param sampleEntity)) [.lit (.int 1)])
    let composed : Making Value := do
      w.evaluate (← sampleQuery.compose w [] [.field "value" [] []] .all) .none
    let resolved : Making Value := do
      let body ← Compose.queryValue w sampleQuery []
      let plan ← Compose.plan w (w.schema.typeOf sampleQuery.host) false [.field "value" [] []]
      w.resolve body .all plan .none
    sampleEntry w composed = (none, some "x") ∧ sampleEntry w resolved = (some 1, none) := by
  decide +kernel

end QueryDecl

end EntityGraph
