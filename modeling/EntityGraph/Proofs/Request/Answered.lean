import EntityGraph.Proofs.Request.Introspected

/-!
# Requests for the description are answered

A request for a part of the description, or for several, is composed without fault, evaluates to
records of the fields that were selected, and these are filled in with the names of the types. So
its answer is the description of the part as given directly. Which part it is depends on the query
alone.

Filling in puts entries into records and orders them last, so a record is followed by what is found
in it under each name.
-/

namespace EntityGraph

section

variable {w : World} {filled : Bool} {host : HostType} {v : Value} {ss : List Selected}

/-- What is found under a name that is not selected, or under one that is selected once. -/
theorem lookup_described_none {name : String} (other : name ∉ ss.map (·.name)) :
    (w.described filled host v ss).lookup name = none := by
  rw [List.lookup_eq_none_iff, World.described_eq_filterMap]
  intro e among
  obtain ⟨s, hs, entry⟩ := List.mem_filterMap.1 among
  obtain ⟨u, _, rfl⟩ := Option.map_eq_some_iff.1 entry
  rw [bne_iff_ne]
  rintro rfl
  exact other (List.mem_map_of_mem hs)

theorem lookup_described (nodup : (ss.map (·.name)).Nodup) {s : Selected} (among : s ∈ ss) :
    (w.described filled host v ss).lookup s.name = w.describedValue? filled host v s := by
  induction ss with
  | nil => cases among
  | cons s' rest ih =>
    rw [List.map_cons, List.nodup_cons] at nodup
    rw [World.described, List.lookup_append]
    rcases List.mem_cons.1 among with rfl | among
    · rw [lookup_described_none nodup.1, Option.or_none]
      cases w.describedValue? filled host v s <;> simp
    · have other : (s.name == s'.name) = false := by
        rw [beq_eq_false_iff_ne]
        exact fun same => nodup.1 (same ▸ List.mem_map_of_mem among)
      rw [ih nodup.2 among]
      cases w.describedValue? filled host v s' <;> simp [List.lookup_cons, other]

/-- A part has something for every field that can be selected. -/
theorem Asks.describedValue?_isSome (own : (Schema.describingName? host).isSome) {s : Selected}
    (asks : Asks host s) : (w.describedValue? true host v s).isSome := by
  cases asks with
  | typeName =>
    rw [World.describedValue?, Schema.describingFields_unnamed]
    simpa using own
  | plain found bare =>
    rw [World.describedValue?, found]
    simp only [bare]
    rfl
  | parts found target =>
    obtain ⟨typeName, target⟩ := Option.isSome_iff_exists.1 target
    rw [World.describedValue?, found]
    simp only [target]
    rfl

/-- The entries of a record are those of the selected fields, in their order. -/
theorem described_names (own : (Schema.describingName? host).isSome)
    (asks : ∀ s ∈ ss, Asks host s) :
    (w.described true host v ss).map (·.1) = ss.map (·.name) := by
  induction ss with
  | nil => rfl
  | cons s rest ih =>
    rw [List.forall_mem_cons] at asks
    have here : (w.describedValue? true host v s).isSome := asks.1.describedValue?_isSome own
    obtain ⟨u, first⟩ := Option.isSome_iff_exists.1 here
    rw [World.described, first, List.map_append, ih asks.2]
    rfl

end

/-- Filling in the records of parts. -/
theorem records_parts {host : HostType} {isList : Bool} {typeName : String}
    {before after : Value → List (String × Value)}
    {fill : List (String × Value) → Making (List (String × Value))}
    (each : ∀ u, IsPart host u → fill (before u) = pure (after u)) {v : Value}
    (parts : AreParts host isList v) :
    Materialize.records fill isList (v.mapRecords fun u => .record typeName (before u))
      = pure (v.mapRecords fun u => .record typeName (after u)) := by
  cases isList with
  | true =>
    obtain ⟨vs, rfl, parts⟩ := parts
    have all : (vs.map fun u => Value.record typeName (before u)).mapM
        (fun v => Materialize.records fill false v)
        = (pure (vs.map fun u => Value.record typeName (after u)) : Making (List Value)) := by
      rw [List.mapM_map]
      refine mapM_eq_pure fun u hu => ?_
      show (do return Value.record typeName (← fill (before u))) = _
      rw [each u (parts u hu)]
      rfl
    show (do return Value.list (← (vs.map fun u => Value.record typeName (before u)).mapM
      (fun v => Materialize.records fill false v))) = _
    rw [all]
    rfl
  | false =>
    rcases parts with rfl | part
    · rfl
    · have single (entries : Value → List (String × Value)) :
          v.mapRecords (fun u => .record typeName (entries u)) = .record typeName (entries v) := by
        cases part <;> rfl
      rw [single before, single after]
      show (do return Value.record typeName (← fill (before v))) = _
      rw [each v part]
      rfl

/-- Whether filling in a selected field of a part puts what is described into its entry, and leaves
the other entries as they are. -/
def World.FillsIn (w : World) (t : TypeDecl) (host : HostType) (v : Value) (s : Selected) : Prop :=
  ∀ es : List (String × Value), es.lookup s.name = w.describedValue? false host v s →
    ∃ es', Materialize.field w t s es = pure es' ∧ ∀ n, es'.lookup n
      = if n = s.name then w.describedValue? true host v s else es.lookup n

/-- What filling in one selected field after the other leaves under each name. -/
theorem fields_filled {w : World} {t : TypeDecl} {host : HostType} {v : Value} {ss : List Selected}
    (nodup : (ss.map (·.name)).Nodup) (each : ∀ s ∈ ss, w.FillsIn t host v s)
    {es : List (String × Value)}
    (here : ∀ s ∈ ss, es.lookup s.name = w.describedValue? false host v s) :
    ∃ es', Materialize.fields w t ss es = pure es'
      ∧ (∀ n ∉ ss.map (·.name), es'.lookup n = es.lookup n)
      ∧ ∀ s ∈ ss, es'.lookup s.name = w.describedValue? true host v s := by
  induction ss generalizing es with
  | nil => exact ⟨es, rfl, fun _ _ => rfl, fun _ hs => absurd hs List.not_mem_nil⟩
  | cons s rest ih =>
    rw [List.map_cons, List.nodup_cons] at nodup
    rw [List.forall_mem_cons] at each here
    obtain ⟨es₁, first, found₁⟩ := each.1 es here.1
    have apart : ∀ s' ∈ rest, s'.name ≠ s.name :=
      fun s' hs' same => nodup.1 (same ▸ List.mem_map_of_mem hs')
    have still : ∀ s' ∈ rest, es₁.lookup s'.name = w.describedValue? false host v s' :=
      fun s' hs' => by rw [found₁, if_neg (apart s' hs'), here.2 s' hs']
    obtain ⟨es₂, later, others, found₂⟩ := ih nodup.2 each.2 still
    refine ⟨es₂, by rw [Materialize.fields, first, pure_bind, later], fun n hn => ?_, ?_⟩
    · rw [List.map_cons, List.mem_cons, not_or] at hn
      rw [others n hn.2, found₁, if_neg hn.1]
    · rw [List.forall_mem_cons]
      exact ⟨by rw [others _ nodup.1, found₁, if_pos rfl], found₂⟩

/-- Filling in a record of a part gives all that is described. -/
theorem record_filled {w : World} {t : TypeDecl} {host : HostType} {v : Value} {ss : List Selected}
    (own : (Schema.describingName? host).isSome) (asks : ∀ s ∈ ss, Asks host s)
    (nodup : (ss.map (·.name)).Nodup) (each : ∀ s ∈ ss, w.FillsIn t host v s) :
    (do
      let es ← Materialize.fields w t ss (w.described false host v ss)
      return Materialize.reorder (ss.map Selected.name) es)
        = pure (w.described true host v ss) := by
  obtain ⟨es, filled, others, found⟩ :=
    fields_filled nodup each fun s hs => lookup_described nodup hs
  rw [filled, pure_bind]
  refine congrArg pure (Materialize.reorder_eq nodup (described_names own asks) fun n => ?_)
  by_cases asked : n ∈ ss.map Selected.name
  · obtain ⟨s, hs, rfl⟩ := List.mem_map.1 asked
    rw [found s hs, lookup_described nodup hs]
  · rw [others n asked, lookup_described_none asked, lookup_described_none asked]

/-- The name of the type is what its field computes later. -/
theorem typeName_filled {w : World} (sealed : Sealed w) {t : TypeDecl}
    (describes : t.Describes w.schema.context) (declared : t ∈ w.schema.types) (v : Value)
    (args : List (String × Value)) : w.FillsIn t t.host v (.field Schema.typeNameName args []) := by
  intro es here
  obtain ⟨g, found, named⟩ := describes.findField?_typeName
  have post := named.isPost
  have value : w.describedValue? true t.host v (.field Schema.typeNameName args [])
      = some (.str t.name) := by
    rw [World.describedValue?, Schema.describingFields_unnamed]
    simp only [if_true]
    rw [← describes.name]
    rfl
  refine ⟨Document.putNamed es Schema.typeNameName (.str t.name), ?_, fun n => ?_⟩
  · rw [Materialize.field]
    simp only [found, post, if_true]
    rw [named.computePost, pure_bind,
      Materialize.setPost_ok (sealed.records t declared describes.entity) found post]
    rfl
  · rw [value]
    exact Document.lookup_putNamed n

section

variable {w : World} (reached : w.IsReached) (described : Described w) (sealed : Sealed w)

include reached described sealed

/-- Filling in a selected field of a part puts what is described into its entry. -/
theorem Asks.filled {host : HostType} {s : Selected} (asks : Asks host s) (apart : Apart s.children)
    {t : TypeDecl} (describes : t.Describes w.schema.context) (own : t.host = host)
    (declared : t ∈ w.schema.types) {v : Value} (part : IsPart host v) :
    w.FillsIn t host v s := by
  induction asks generalizing t v with
  | @typeName host args =>
    rw [← own]
    exact typeName_filled sealed describes declared v args
  | @plain host name r own' bare =>
    obtain ⟨f, found, is⟩ := describes.findField? (own ▸ own')
    obtain ⟨_, scalar⟩ := (typeOf_describing reached described
      (List.mem_of_find?_eq_some own')).resolve_right fun other => by simp [bare] at other
    rw [← is.host] at scalar
    intro es here
    refine ⟨es, ?_, fun n => ?_⟩
    · rw [Materialize.field]
      simp only [found, is.isPost, Bool.false_eq_true, if_false, scalar, if_true]
    · split
      · next same =>
        rw [same, here, World.describedValue?, World.describedValue?, own']
        simp only [bare]
      · rfl
  | @parts host name children r own' target selected each ih =>
    obtain ⟨f, found, is⟩ := describes.findField? (own ▸ own')
    have among := List.mem_of_find?_eq_some own'
    obtain ⟨typeName, named, describes', same, host'⟩ :=
      (typeOf_describing reached described among).resolve_left
        fun other => by simp [other.1] at target
    rw [← is.host] at describes' same host'
    have entity := describes'.entity
    have record (u : Value) (part : IsPart r.host u) :=
      record_filled (v := u) target each apart.nodup fun s hs =>
        ih s hs (apart.beneath s hs) describes' (host'.trans is.host) (typeOf_mem entity) part
    have value (filled : Bool) : w.describedValue? filled host v (.field name [] children)
        = some ((r.reading.value w v).mapRecords fun u =>
          .record typeName (w.described filled r.host u children)) := by
      rw [World.describedValue?, own']
      simp only [named]
    have parts := Reading.value_parts (w := w) among target part
    rw [← is.isList] at parts
    intro es here
    refine ⟨Document.putNamed es name ((r.reading.value w v).mapRecords fun u =>
      .record typeName (w.described true r.host u children)), ?_, fun n => ?_⟩
    · rw [value] at here
      rw [Materialize.field]
      simp only [found, is.isPost, Bool.false_eq_true, if_false, entity]
      rw [show es.lookup name = some _ from here]
      dsimp only
      rw [records_parts record parts]
      rfl
    · rw [value]
      exact Document.lookup_putNamed n

/-- Records of parts are filled in with all that is described. -/
theorem value_filled {t : TypeDecl} (describes : t.Describes w.schema.context)
    (declared : t ∈ w.schema.types) {ss : List Selected} (apart : Apart ss)
    (asks : ∀ s ∈ ss, Asks t.host s) {isList : Bool} {v : Value}
    (parts : AreParts t.host isList v) :
    Materialize.value w t ss isList
        (v.mapRecords fun u => .record t.name (w.described false t.host u ss))
      = pure (v.mapRecords fun u => .record t.name (w.described true t.host u ss)) := by
  have own : (Schema.describingName? t.host).isSome := by rw [← describes.name]; rfl
  unfold Materialize.value
  rw [describes.entity, if_neg Bool.false_ne_true]
  refine records_parts (fun u part => ?_) parts
  exact record_filled own asks apart.nodup fun s hs =>
    (asks s hs).filled reached described sealed (apart.beneath s hs) describes rfl declared part

end

/-! ## Answers -/

namespace QueryDecl

variable {w : World} {q : QueryDecl} {args : List (String × Value)} {body : Expr Value}
  {a m : Trail}

theorem queryValue_of_lends (lends : LendsQuery w q args body a m) :
    runOn (Compose.queryValue w q args) a = (.ok body, m) := by
  obtain ⟨bound, n, binds, gives⟩ := lends
  unfold Compose.queryValue
  rw [runOn_bind_ok binds, runOn_bind_ok gives]
  simp

/-- What a query lends for its arguments is one body. -/
theorem lendsQuery_unique {body' : Expr Value} {m' : Trail} (lends : LendsQuery w q args body a m)
    (lends' : LendsQuery w q args body' a m') : body' = body := by
  have first := queryValue_of_lends lends
  rw [queryValue_of_lends lends'] at first
  cases first
  rfl

/-- A request is composed if its arguments can be bound and its selections can be planned. -/
theorem composed_of_drawn (lends : LendsQuery w q args body a m) {ss : List Selected}
    (entity : (w.schema.typeOf q.host).isScalar = false)
    (drawn : ∃ plan, Compose.plan w (w.schema.typeOf q.host) q.isList ss = pure plan) :
    ∃ e b, runOn (q.compose w args ss .all) a = (.ok e, b) := by
  obtain ⟨plan, drawn⟩ := drawn
  have checked : Paging.all.check q = .ok () := by
    unfold Paging.check
    simp [Paging.all, Value.isNone, Paging.isBound]
  unfold compose
  rw [checked, liftM_ok_bind, runOn_bind_ok (queryValue_of_lends lends)]
  simp only [entity, Bool.false_and, Bool.false_eq_true, if_false]
  rw [drawn, pure_bind]
  let whole := Expr.lambda [w.schema.context] (Paging.all.apply body)
  obtain ⟨e, b, assembled, _⟩ := plan.assemble_total (Paging.all.apply body)
    { m with supply := max m.supply (max whole.ceiling plan.ceiling) }
  refine ⟨.lambda [w.schema.context] e, b, ?_⟩
  rw [runOn_bind_ok (show runOn (Making.passOver _) m = (.ok (), _) from rfl),
    runOn_bind_ok assembled]
  rfl

end QueryDecl

namespace World

/-- A request for a part of the description, or for several, is answered by their description. -/
theorem description_answered {w : World} (reached : w.IsReached)
    (completed : w.schema.completed = true) {q : QueryDecl} {name : String}
    (asked : w.query name = .ok q) {typeName : String}
    (describing : Schema.describingName? q.host = some typeName) {args : List (String × Value)}
    {body : Expr Value} {a m : Trail} (lends : LendsQuery w q args body a m) {context v : Value}
    (evaluated : body.eval w.host (.bind w.schema.context context .empty) = pure v)
    (parts : AreParts q.host q.isList v) {ss : List Selected} (apart : Apart ss)
    (asks : ∀ s ∈ ss, Asks q.host s) (selected : ss ≠ []) :
    ∃ b, runOn (w.runQuery context name args ss .all) a
      = (.ok (v.mapRecords fun u => .record typeName (w.described true q.host u ss)), b) := by
  have described := reached.described completed
  have sealed := reached.sealed completed
  -- The request is composed, it resolves to the records that are described but for what is computed
  -- later, and filling these in completes them.
  obtain ⟨t, found, host, describes⟩ := described.types q.host (by rw [describing]; rfl)
  have is : w.schema.typeOf q.host = t := host ▸ found.typeOf
  obtain rfl : t.name = typeName := by
    have name := describes.name
    rw [host, describing] at name
    exact Option.some.inj name
  have entity := describes.entity
  have drawn : ∃ plan, Compose.plan w (w.schema.typeOf q.host) q.isList ss = pure plan := by
    obtain ⟨ms, drawn⟩ := members_drawn (w := w) (t := t)
      (fun s hs => (asks s hs).drawn reached described sealed describes host) []
    rw [← is] at entity drawn
    exact planWith_drawn sealed entity (by simpa using selected) drawn
  obtain ⟨e, b, composed⟩ := q.composed_of_drawn lends (is ▸ entity) drawn
  obtain ⟨body', plan, _, _, lends', plans, resolves⟩ :=
    QueryDecl.composed_resolves reached completed composed
  obtain rfl := QueryDecl.lendsQuery_unique lends' lends
  rw [is] at plans
  obtain ⟨plain, resolved⟩ := plans.resolves_described reached described describes apart
  rw [← host] at parts
  have resolution : w.resolve body .all plan context
      = pure (v.mapRecords fun u => .record t.name (w.described false t.host u ss)) := by
    have applied : (Expr.lambda [w.schema.context] body).applyLambda w.host [context]
        = pure v := evaluated
    rw [resolve, applied, pure_bind]
    show plan.resolve w context v = _
    exact resolved context v parts
  obtain ⟨told, _⟩ := resolves plain context b b b.alike_refl
  rw [resolution, runOn_pure, told_ok] at told
  obtain ⟨b', evaluates⟩ := exists_runOn_of_told told.symm
  refine ⟨b', ?_⟩
  unfold runQuery
  rw [asked, liftM_ok_bind, runOn_bind_ok composed, runOn_bind_ok evaluates, is,
    value_filled reached described sealed describes found.mem apart (host ▸ asks) parts, ← host]
  rfl

end World

end EntityGraph
