import EntityGraph.Proofs.Request.Answered
import EntityGraph.Proofs.Script.Recorded

/-!
# The two queries of the description agree

The query for a type searches the list of all types for one whose name equals its argument. The
search is recorded anew for every request, from a function of the argument. It finds the first type
with the name, so that the answer is the entry of this type in the answer to the query for the
schema.
-/

namespace EntityGraph

namespace Schema

/-! ## The search -/

/-- The expression for the type with a name, which the query for a type lends. -/
def typeSearch (name : String) (p : Param) : Expr Value :=
  .seq .firstOrDefault (.method (.lit .schema) "list_all_types" [])
    [.lambda [p] (.binary .eq (.member (.param p) "name") (.lit (.str name)))]

/-- The script from which this expression is recorded. -/
def typeSearchScript : Script Value :=
  .call (.attr (.call (.attr (.const .schema) "list_all_types") []) "first_or_default")
    [.fn ["type_value"] none (.bin .eq (.attr (.var "type_value") "name") (.var "type_name"))]

variable {w : World} {base a : Trail} (settled : base.IsSettled) (since : base.Since a)
  {env : Env} {name : String} {d : Nat}

include settled since in
theorem typeSearch_records (here : env.lookup "type_name" = some (.str name)) :
    ∃ p, typeSearchScript.Records w base (Value.callWithin w (d + 2)) env a
      (typeSearch name p) := by
  let call := Value.callWithin w (d + 2)
  have schema : Script.Records w base call env a (.const .schema) (.lit .schema) :=
    Script.records_const since .schema
  have listing : Script.Records w base call env a (.attr (.const .schema) "list_all_types")
      (.member (.lit .schema) "list_all_types") :=
    Script.records_attr settled since schema (by decide +kernel) (by decide)
  have types := Script.records_method settled since listing (by decide) (by decide) (by decide)
  have first : Script.Records w base call env a
      (.attr (.call (.attr (.const .schema) "list_all_types") []) "first_or_default")
      (.member (.method (.lit .schema) "list_all_types" []) "first_or_default") :=
    Script.records_attr settled since types (by decide +kernel) (by decide)
  let isNamed (p : Param) : Expr Value := .binary .eq (.member (.param p) "name") (.lit (.str name))
  have search : ∃ p, Script.Records w base call env a typeSearchScript
      (.seq .firstOrDefault (.method (.lit .schema) "list_all_types" [])
        [.lambda [p] (isNamed p)]) := by
    refine Script.records_seq settled since first (by decide) (by decide)
      fun p r b later proxied => ?_
    have since' := since.trans later
    have read : Script.Records w base (Value.callWithin w d) (("type_value", r) :: env) b
        (.attr (.var "type_value") "name") (.member (.param p) "name") :=
      Script.records_attr settled since' (Script.records_var List.lookup_cons_self proxied)
        (by decide +kernel) (by decide)
    exact Script.records_bin settled since' read .eq here rfl
  exact search

/-- The elements that pass a test which changes nothing. -/
theorem keep_eq_pure {test : Value → Making Value} {passes : Value → Bool} {vs : List Value}
    (h : ∀ v ∈ vs, test v = pure (.bool (passes v))) :
    Eval.keep w test vs = pure (vs.filter passes) := by
  induction vs with
  | nil => rfl
  | cons v vs ih =>
    rw [List.forall_mem_cons] at h
    refine eq_pure_of_run fun a => ?_
    rw [Eval.keep, h.1, pure_bind, runOn_now_bind]
    show runOn (if passes v then _ else _) a = _
    rw [List.filter_cons, ih h.2]
    cases passes v <;> rfl

/-- The first element that passes a test which changes nothing, or a missing value. -/
theorem eval_firstOrDefault {source body : Expr Value} {p : Param} {s : Scope Value}
    {vs : List Value} {passes : Value → Bool} (sequence : source.eval w.host s = pure (.list vs))
    (tested : ∀ v ∈ vs, body.eval w.host (.bind p v s) = pure (.bool (passes v))) :
    (Expr.seq .firstOrDefault source [.lambda [p] body]).eval w.host s
      = pure ((vs.find? passes).getD .none) := by
  have kept : Eval.keep w (fun v => Expr.applyFirst w.host [.lambda [p] body] v s) vs
      = pure (vs.filter passes) := by
    refine keep_eq_pure fun v hv => ?_
    rw [Expr.applyFirst, Expr.applyTo]
    exact tested v hv
  have applied (self : Expr Value) : Eval.applyFunction w .firstOrDefault self
      (some fun v => Expr.applyFirst w.host [.lambda [p] body] v s) vs
      = pure ((vs.find? passes).getD .none) := by
    show (do return ← Eval.conclude .firstOrDefault self (← Eval.keep w _ vs)) = _
    rw [kept, pure_bind, ← List.head?_filter]
    rfl
  rw [Expr.eval, sequence, pure_bind]
  refine eq_pure_of_run fun a => ?_
  show runOn (Making.now w >>= fun now => liftM (Value.elements now (.list vs)) >>= _) a = _
  rw [runOn_now_bind, show Value.elements (w.after a) (.list vs) = .ok vs from rfl, liftM_ok_bind]
  exact congrFun (applied _) a

/-- Whether a value is a type that has the name. -/
def isTypeNamed (s : Schema) (name : String) : Value → Bool
  | .typeRef r => (s.resolve r).name == name
  | _ => false

/-- The search finds the first type that has the name. -/
theorem eval_typeSearch (s : Scope Value) (p : Param) : (typeSearch name p).eval w.host s
    = pure (((w.schema.listed? name).map .typeRef).getD .none) := by
  let named (v : Value) := isTypeNamed w.schema name v
  have types : (Expr.method (.lit .schema) "list_all_types" []).eval w.host s
      = pure (.list (w.schema.allTypes.map .typeRef)) := eval_list_all_types rfl
  have found : (w.schema.allTypes.map Value.typeRef).find? named
      = (w.schema.listed? name).map .typeRef := List.find?_map ..
  rw [← found]
  refine eval_firstOrDefault types fun v hv => ?_
  obtain ⟨r, _, rfl⟩ := List.mem_map.1 hv
  have here : (Scope.bind p (Value.typeRef r) s).lookup? p = some (.typeRef r) := by
    simp [Scope.lookup?]
  have read : (Expr.member (.param p) "name").eval w.host (.bind p (.typeRef r) s)
      = pure (.str (w.schema.resolve r).name) := eval_member here rfl (fun _ => rfl) rfl
  rw [Script.eval_binary, read, pure_bind]
  rfl

/-! ## What the query for a type lends -/

/-- Texts are translated by the first scalar, and stand for themselves. -/
theorem translateAs_text (standard : ∃ more, w.schema.scalars = Registry.standard ++ more)
    (text : String) :
    Registry.translateAs w w.schema.scalars (.builtin .str) (.str text) = pure (.str text) := by
  obtain ⟨more, scalars⟩ := standard
  have found : Registry.findHost? w.schema.scalars (.builtin .str)
      = some (Registry.plainEntry "String" .string .str) := by
    rw [scalars]
    rfl
  rw [Registry.translateAs, found]
  rfl

theorem bind_typeQuery (standard : ∃ more, w.schema.scalars = Registry.standard ++ more)
    (name : String) (number : Nat) (a : Trail) :
    runOn ((typeQuery number).shape.bind w w.schema.scalars [("name", .str name)]) a
      = (.ok (.orderedDict [(.str "name", .str name)] (a.supply + 1)), a.next) := by
  have bound : ArgShape.bindOne w w.schema.scalars [(.str "name", .builtin .str)] "name" (.str name)
      = pure (.str name) := translateAs_text standard name
  show runOn (do
    let bound ← [("name", Value.str name)].mapM fun p => do
      return (p.1, ← ArgShape.bindOne w w.schema.scalars [(.str "name", .builtin .str)] p.1 p.2)
    ArgShape.build w (typeQuery number).shape bound) a = _
  rw [List.mapM_cons]
  dsimp only
  rw [bound]
  rfl

include settled in
/-- The query for a type lends the search for its name. -/
theorem typeQuery_lends (standard : ∃ more, w.schema.scalars = Registry.standard ++ more)
    (name : String) (number : Nat) :
    ∃ p m, LendsQuery w (typeQuery number) [("name", .str name)] (typeSearch name p) base m := by
  let arguments : Value := .orderedDict [(.str "name", .str name)] (base.supply + 1)
  let env : Env := [("type_name", .str name), ("arguments", arguments)]
  let a := base.next.next.next
  have since : base.Since a :=
    ((Trail.since_next base).trans (Trail.since_next _)).trans (Trail.since_next _)
  let search : Value := .function (base.supply + 3) ["context"] none typeSearchScript env
  have given : runOn (Value.call w (.function number ["arguments"] none typeLookup []) [arguments])
      base.next = (.ok search, a) := rfl
  let context : Value := .proxy (.expr (.param w.schema.context) ⟨a.supply + 1, []⟩) (a.supply + 1)
  have here : List.lookup "type_name" (("context", context) :: env) = some (.str name) := rfl
  obtain ⟨p, records⟩ := typeSearch_records (d := 897) settled
    (since.trans (Trail.since_next a)) here
  obtain ⟨m, _, captured⟩ := Script.captureLambda_records settled since records
  refine ⟨p, m, arguments, base.next, bind_typeQuery standard name number base, ?_⟩
  show runOn (Value.call w (.function number ["arguments"] none typeLookup []) [arguments]
    >>= fun f => captureQuery w f) base.next = _
  rw [runOn_bind_ok given]
  exact captured

end Schema

/-! ## What the two queries answer -/

/-- Whether selected fields can be composed on the type that describes a host type. -/
def World.Composes (w : World) (host : HostType) (ss : List Selected) : Prop :=
  ∃ plan a b, runOn (Compose.plan w (w.schema.typeOf host) false ss) a = (.ok plan, b)

/-- The record of a type in the description. -/
def World.typeRecord (w : World) (r : TypeRef) (ss : List Selected) : Value :=
  .record "__Type" (w.described true .entityType (.typeRef r) ss)

namespace World

variable {w : World} {ss : List Selected} (reached : w.IsReached)
  (completed : w.schema.completed = true)

include reached

theorem query_of_mem {q : QueryDecl} (declared : q ∈ w.schema.queries) :
    w.query q.name = .ok q := by
  unfold query Schema.findQuery?
  rw [find?_of_nodup reached.distinct.queries declared]

omit reached in
/-- A request that runs is executed. -/
theorem executed_of_run (completed : w.schema.completed = true) {context : Value} {name : String}
    {args : List (String × Value)} {paging : Paging} {used : Usage} {v : Value}
    (run : ∃ b, runOn (w.runQuery context name args ss paging) used.trail = (.ok v, b)) :
    ∃ after, runOn (w.executeQuery context name args ss paging) used = (.ok v, after) := by
  obtain ⟨b, run⟩ := run
  rw [runOn_executeQuery completed, run]
  exact ⟨_, rfl⟩

include completed

/-- What can be composed on the type of types asks for fields of the description. -/
theorem Composes.asks (composes : w.Composes .entityType ss) (apart : Apart ss) :
    ss ≠ [] ∧ ∀ s ∈ ss, Asks .entityType s := by
  have described := reached.described completed
  obtain ⟨t, found, host, describes⟩ := described.types .entityType rfl
  obtain ⟨plan, a, b, drawn⟩ := composes
  rw [← host, found.typeOf] at drawn
  rcases Compose.planWith_ok drawn with ⟨scalar, _⟩ | ⟨_, selected, ms, run, _⟩
  · rw [describes.entity] at scalar
    cases scalar
  · refine ⟨by simpa using selected, ?_⟩
    rw [← host]
    exact asks_of_composed reached described apart describes (.inr ⟨ms, a, b, run⟩)

/-- The query for the schema is answered by what the schema describes itself as. -/
theorem schema_answered (apart : Apart ss) (asks : ∀ s ∈ ss, Asks .schema s) (selected : ss ≠ [])
    (context : Value) (used : Usage) :
    ∃ after, runOn (w.executeQuery context "__schema" [] ss .all) used
      = (.ok (.record "__Schema" (w.described true .schema .schema ss)), after) := by
  refine executed_of_run completed ?_
  have asked : w.query "__schema" = .ok (Schema.schemaQuery w.schema.context) :=
    query_of_mem reached (reached.described completed).schema
  have lends : LendsQuery w (Schema.schemaQuery w.schema.context) [] (.lit .schema) used.trail
      used.trail := ⟨.none, used.trail, rfl, rfl⟩
  exact description_answered reached completed asked rfl lends rfl (.inr .schema) apart asks
    selected

/-- The query for a type is answered by the first type of the list that has the name. -/
theorem type_answered (apart : Apart ss) (asks : ∀ s ∈ ss, Asks .entityType s) (selected : ss ≠ [])
    (context : Value) (name : String) {used : Usage} (settled : used.trail.IsSettled) :
    ∃ after, runOn (w.executeQuery context "__type" [("name", .str name)] ss .all) used
      = (.ok ((w.schema.listed? name).elim .none fun r => w.typeRecord r ss), after) := by
  refine executed_of_run completed ?_
  obtain ⟨number, declared⟩ := (reached.described completed).type
  have asked : w.query "__type" = .ok (Schema.typeQuery number) := query_of_mem reached declared
  obtain ⟨p, m, lends⟩ := Schema.typeQuery_lends settled reached.scalars_standard name number
  let found : Value := ((w.schema.listed? name).map .typeRef).getD .none
  have parts : AreParts .entityType false found := by
    unfold found
    cases w.schema.listed? name with
    | none => exact .inl rfl
    | some r => exact .inr (.type r)
  have evaluated : (Schema.typeSearch name p).eval w.host (.bind w.schema.context context .empty)
      = pure found := Schema.eval_typeSearch _ p
  obtain ⟨b, run⟩ := description_answered reached completed asked rfl lends evaluated parts apart
    asks selected
  refine ⟨b, run.trans ?_⟩
  unfold found
  cases w.schema.listed? name <;> rfl

end World

/-! ## Entries and their names -/

/-- The name in the entries of a record. -/
def entryName? (es : List (String × Value)) : Option String := (es.lookup "name").bind Value.text?

namespace Selected

/-- Selected fields together with the name. -/
def named (ss : List Selected) : List Selected :=
  if ss.any (·.name == "name") then ss else ss ++ [.field "name" [] []]

/-- The entries for selected fields, in their order. -/
def pick (ss : List Selected) (es : List (String × Value)) : List (String × Value) :=
  ss.filterMap fun s => (es.lookup s.name).map fun v => (s.name, v)

variable {ss : List Selected}

theorem mem_named {s : Selected} :
    s ∈ named ss ↔ s ∈ ss ∨ (∀ s' ∈ ss, s'.name ≠ "name") ∧ s = .field "name" [] [] := by
  unfold named
  split
  · next known =>
    obtain ⟨s', hs', is⟩ := List.any_eq_true.1 known
    exact ⟨.inl, fun h => h.resolve_right fun ⟨other, _⟩ => other s' hs' (beq_iff_eq.1 is)⟩
  · next unknown =>
    have new : ∀ s' ∈ ss, s'.name ≠ "name" := fun s' hs' is =>
      unknown (List.any_eq_true.2 ⟨s', hs', beq_iff_eq.2 is⟩)
    rw [List.mem_append, List.mem_singleton]
    exact or_congr_right ⟨fun is => ⟨new, is⟩, (·.2)⟩

theorem named_names (ss : List Selected) : ∃ s ∈ named ss, s.name = "name" := by
  by_cases known : ∃ s ∈ ss, s.name = "name"
  · obtain ⟨s, hs, is⟩ := known
    exact ⟨s, mem_named.2 (.inl hs), is⟩
  · refine ⟨.field "name" [] [], mem_named.2 (.inr ⟨fun s hs is => known ⟨s, hs, is⟩, rfl⟩), rfl⟩

theorem apart_named (apart : Apart ss) : Apart (named ss) := by
  refine .intro ?_ fun s hs => ?_
  · unfold named
    split
    · exact apart.nodup
    · next unknown =>
      rw [List.map_append, List.nodup_append]
      refine ⟨apart.nodup, by simp, fun n hn n' hn' => ?_⟩
      obtain ⟨s, hs, rfl⟩ := List.mem_map.1 hn
      rw [List.map_singleton, List.mem_singleton] at hn'
      rintro is
      exact unknown (List.any_eq_true.2 ⟨s, hs, beq_iff_eq.2 (is.trans hn')⟩)
  · rcases mem_named.1 hs with hs | ⟨_, rfl⟩
    · exact apart.beneath s hs
    · exact .none

theorem asks_named (asks : ∀ s ∈ ss, Asks .entityType s) : ∀ s ∈ named ss, Asks .entityType s := by
  intro s hs
  rcases mem_named.1 hs with hs | ⟨_, rfl⟩
  · exact asks s hs
  · exact .plain rfl rfl

variable {w : World}

/-- A type is described under its name. -/
theorem entryName?_described (apart : Apart ss) (r : TypeRef) :
    entryName? (w.described true .entityType (.typeRef r) (named ss))
      = some (w.schema.resolve r).name := by
  obtain ⟨s, hs, is⟩ := named_names ss
  have found : (w.described true .entityType (.typeRef r) (named ss)).lookup s.name
      = some (.str (w.schema.resolve r).name) := by
    rw [lookup_described (apart_named apart).nodup hs]
    obtain ⟨name, args, children⟩ := s
    obtain rfl : name = "name" := is
    rfl
  rw [is] at found
  unfold entryName?
  rw [found]
  rfl

/-- What is described for some of the selected fields is picked from what is described for all. -/
theorem pick_described {more : List Selected} (nodup : (more.map (·.name)).Nodup) (sub : ss ⊆ more)
    (host : HostType) (v : Value) :
    pick ss (w.described true host v more) = w.described true host v ss := by
  rw [World.described_eq_filterMap _ _ _ _ ss]
  refine List.filterMap_congr fun s hs => ?_
  rw [lookup_described nodup (sub hs)]

/-- The first entry with a name is that of the first type of the list that has it. -/
theorem find?_described (apart : Apart ss) (name : String) :
    (w.schema.allTypes.map fun r => w.described true .entityType (.typeRef r) (named ss)).find?
        (fun es => entryName? es == some name)
      = (w.schema.listed? name).map fun r =>
        w.described true .entityType (.typeRef r) (named ss) := by
  have same : ((fun es => entryName? es == some name) ∘ fun r =>
      w.described true .entityType (.typeRef r) (named ss))
        = fun r => (w.schema.resolve r).name == name := by
    funext r
    show (entryName? (w.described true .entityType (.typeRef r) (named ss)) == some name) = _
    rw [entryName?_described apart r]
    rfl
  rw [List.find?_map, same]
  rfl

end Selected

/-! ## Agreement -/

namespace World

/-- The types of the description are declared. -/
theorem describing_declared {w : World} (described : Described w) {host : HostType} {name : String}
    (own : Schema.describingName? host = some name) : name ∈ w.schema.types.map (·.name) := by
  obtain ⟨t, found, is, describes⟩ := described.types host (by rw [own]; rfl)
  refine List.mem_map.2 ⟨t, found.mem, Option.some.inj ?_⟩
  rw [describes.name, is, own]

/-- A schema is described with all of its types, in their order. -/
theorem described_types (w : World) (ss : List Selected) :
    w.described true .schema .schema [.field "types" [] ss]
      = [("types", .list (w.schema.allTypes.map fun r => w.typeRecord r ss))] := by
  show [("types", Value.list ((w.schema.allTypes.map Value.typeRef).map _))] = _
  rw [List.map_map]
  rfl

/-- The two queries of the description agree. The list of all types holds the declared types, those
of the description among them, and after them the scalars whose names no declared type has taken. If
a type of the list has the name that is asked for, the answer is the entry of the first one, as far
as it was selected, and otherwise the answer is missing. As long as no scalar is registered with the
empty name, there is no other entry with the name. -/
theorem type_query_agrees {w : World} (reached : w.IsReached)
    (completed : w.schema.completed = true) {ss : List Selected} (apart : Apart ss)
    (composes : w.Composes .entityType ss) :
    (w.schema.allTypes.map w.schema.resolve
        = w.schema.types ++ (w.schema.scalars.map (·.typeDecl)).filter fun t =>
          !(w.schema.types.map (·.name)).contains t.name)
      ∧ (∀ name ∈ ["__Schema", "__Type", "__Field"], name ∈ w.schema.types.map (·.name))
      ∧ ∃ entries : List (List (String × Value)),
        (entries.map entryName? = w.schema.allTypes.map fun r => some (w.schema.resolve r).name)
        ∧ (∀ context used, ∃ after,
          runOn (w.executeQuery context "__schema" [] [.field "types" [] (Selected.named ss)] .all)
            used
            = (.ok (.record "__Schema" [("types", .list (entries.map (.record "__Type")))]), after))
        ∧ (∀ context name used, used.trail.IsSettled → ∃ after,
          runOn (w.executeQuery context "__type" [("name", .str name)] ss .all) used
            = (.ok ((entries.find? fun es => entryName? es == some name).elim .none fun es =>
                .record "__Type" (Selected.pick ss es)), after))
        ∧ (w.schema.NamesScalars → (entries.map entryName?).Nodup) := by
  obtain ⟨selected, asks⟩ := composes.asks reached completed apart
  have described := reached.described completed
  let entry (r : TypeRef) := w.described true .entityType (.typeRef r) (Selected.named ss)
  have names (r : TypeRef) : entryName? (entry r) = some (w.schema.resolve r).name :=
    Selected.entryName?_described apart r
  refine ⟨w.schema.resolve_allTypes, ?_, w.schema.allTypes.map entry, ?_, fun context used => ?_,
    fun context name used settled => ?_, fun named => ?_⟩
  · intro name own
    simp only [List.mem_cons, List.not_mem_nil, or_false] at own
    rcases own with rfl | rfl | rfl
    · exact describing_declared described (show Schema.describingName? .schema = _ from rfl)
    · exact describing_declared described (show Schema.describingName? .entityType = _ from rfl)
    · exact describing_declared described (show Schema.describingName? .field = _ from rfl)
  · rw [List.map_map]
    exact List.map_congr_left fun r _ => names r
  · have some : Selected.named ss ≠ [] := by
      obtain ⟨s, hs, _⟩ := Selected.named_names ss
      exact List.ne_nil_of_mem hs
    have types : Asks .schema (.field "types" [] (Selected.named ss)) :=
      .parts rfl rfl some (Selected.asks_named asks)
    have alone := (Selected.apart_named apart).single "types" []
    obtain ⟨after, run⟩ := schema_answered reached completed alone (by simpa using types) (by simp)
      context used
    refine ⟨after, run.trans ?_⟩
    rw [described_types, List.map_map]
    rfl
  · obtain ⟨after, run⟩ := type_answered reached completed apart asks selected context name settled
    have answer : ((w.schema.listed? name).elim Value.none fun r => w.typeRecord r ss)
        = ((w.schema.listed? name).map entry).elim .none fun es =>
          .record "__Type" (Selected.pick ss es) := by
      cases w.schema.listed? name with
      | none => rfl
      | some r =>
        show w.typeRecord r ss = .record "__Type" (Selected.pick ss (entry r))
        rw [Selected.pick_described (Selected.apart_named apart).nodup fun s hs =>
          Selected.mem_named.2 (.inl hs)]
        rfl
    refine ⟨after, run.trans ?_⟩
    rw [Selected.find?_described apart name, answer]
  · have nodup := Schema.allTypes_nodup reached.distinct named
    have same : (w.schema.allTypes.map entry).map entryName?
        = ((w.schema.allTypes.map w.schema.resolve).map (·.name)).map Option.some := by
      simp only [List.map_map]
      exact List.map_congr_left fun r _ => names r
    rw [same]
    exact nodup.map fun _ _ => Option.some.inj

/-- What is asked of a type in the examples. -/
def sampleTypeFields : List Selected :=
  [.field "kind" [] [],
    .field "fields" [] [.field "type" [] [.field "name" [] [], .field "__typename" [] []]]]

theorem apart_sampleTypeFields : Apart sampleTypeFields := by
  have names : Apart [.field "name" [] [], .field "__typename" [] []] :=
    .intro (by decide) (by simp [Selected.children, Apart.none])
  refine .intro (by decide) ?_
  simpa [sampleTypeFields, Selected.children, Apart.none] using names.single "type" []

theorem composes_of_isOk {w : World} {host : HostType} {ss : List Selected} {a : Trail}
    (planned : (runOn (Compose.plan w (w.schema.typeOf host) false ss) a).1.isOk = true) :
    w.Composes host ss := by
  cases run : runOn (Compose.plan w (w.schema.typeOf host) false ss) a with
  | mk r b =>
    rw [run] at planned
    cases r with
    | error f => cases planned
    | ok plan => exact ⟨plan, a, b, run⟩

theorem isSettled_of_unassigned {w : World} (unassigned : w.memory.isEmpty = true) :
    w.trail.IsSettled := by
  intro p o assigned
  rw [show w.trail.memory = [] from List.isEmpty_iff.1 unassigned] at assigned
  cases assigned

theorem asking_type_query_agrees :
    let w := asking (.ofTree (.lambda [⟨0, "context"⟩] (.lit (.str "x"))))
    ∃ es after, runOn (w.executeQuery .none "__type" [("name", .str "__Field")] sampleTypeFields
      .all) ⟨0, w.trail⟩ = (.ok (.record "__Type" es), after) := by
  -- the schema itself is large, so only the facts about it that count are given to the proof
  have agrees (w : World) (reached : w.IsReached) (completed : w.schema.completed = true)
      (composes : (runOn (Compose.plan w (w.schema.typeOf .entityType) false sampleTypeFields)
        w.trail).1.isOk = true) (unassigned : w.memory.isEmpty = true) :
      ∃ es after, runOn (w.executeQuery .none "__type" [("name", .str "__Field")] sampleTypeFields
        .all) ⟨0, w.trail⟩ = (.ok (.record "__Type" es), after) := by
    obtain ⟨listed, declared, entries, names, _, answered, _⟩ :=
      type_query_agrees reached completed apart_sampleTypeFields (composes_of_isOk composes)
    obtain ⟨after, run⟩ :=
      answered .none "__Field" ⟨0, w.trail⟩ (isSettled_of_unassigned unassigned)
    have listed : "__Field" ∈ (w.schema.allTypes.map w.schema.resolve).map (·.name) := by
      rw [listed, List.map_append]
      exact List.mem_append_left _ (declared "__Field" (by simp))
    have entry : (entries.find? fun es => entryName? es == some "__Field").isSome := by
      rw [List.map_map] at listed
      obtain ⟨r, among, is⟩ := List.mem_map.1 listed
      have named : some "__Field" ∈ entries.map entryName? := by
        rw [names]
        exact List.mem_map.2 ⟨r, among, congrArg some is⟩
      obtain ⟨es, hes, is⟩ := List.mem_map.1 named
      exact List.find?_isSome.2 ⟨es, hes, beq_iff_eq.2 is⟩
    obtain ⟨es, found⟩ := Option.isSome_iff_exists.1 entry
    rw [found] at run
    exact ⟨_, after, run⟩
  exact agrees _ (asking_isReached _) (by decide +kernel) (by decide +kernel) (by decide +kernel)

/-- A complete schema with one more scalar, which is registered with the empty name. -/
def unnamed : World :=
  ((Session.start default ⟨0, "context"⟩ 8).after
    [.addQuery .unmodified "q" (.builtin .str)
        (.ofTree (.lambda [⟨0, "context"⟩] (.lit (.str "x")))) "",
      .addScalar .string (.primitive .parseUuid) (some "") none "second", .complete]).world

theorem unnamed_isReached : unnamed.IsReached := ⟨default, _, _, _, rfl⟩

/-- The entries of a record, or of each record in a list. -/
def entriesIn : Value → List (List (String × Value))
  | .record _ es => [es]
  | .list vs => vs.flatMap fun v => match v with
    | .record _ es => [es]
    | _ => []
  | _ => []

/-- The names in the records along a path in what the query for the schema answers. -/
def namesAlong (w : World) (path : List String) : List String :=
  let ss := path.foldr (fun name ss => [.field name [] ss]) [.field "name" [] []]
  let step := fun found name => found.flatMap fun es => (es.lookup name).elim [] entriesIn
  match (runOn (w.executeQuery .none "__schema" [] ss .all) ⟨0, w.trail⟩).1 with
  | .ok v => (path.foldl step (entriesIn v)).filterMap entryName?
  | .error _ => []

/-- Such a scalar is described under the name of its host type, which another scalar has. -/
theorem name_listed_twice :
    unnamed.IsReached ∧ unnamed.schema.completed = true
      ∧ (namesAlong unnamed ["types"]).count "UUID" = 2 :=
  ⟨unnamed_isReached, by decide +kernel, by decide +kernel⟩

end World

end EntityGraph
