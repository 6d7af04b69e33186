import EntityGraph.Proofs.Request.Asserted
import EntityGraph.Proofs.Schema.Listed

/-!
# Requests that describe the schema

The description of a schema is made of the schema itself, of its types and of their fields, and its
lambdas read these without leaving anything behind. So a request for it comes out with certainty:
for every selection tree that can be composed at all, its records are those that are given here
directly, field by field.
-/

set_option linter.unusedSectionVars false

namespace EntityGraph

/-! ## Parts of the description -/

/-- Whether a value is described by a type of the description. -/
inductive IsPart : HostType → Value → Prop
  | schema : IsPart .schema .schema
  | type (r : TypeRef) : IsPart .entityType (.typeRef r)
  | field (t i : Nat) : IsPart .field (.fieldRef t i)

/-- Whether a value is one part, or several in a list. A single one may be missing. -/
def AreParts (host : HostType) (isList : Bool) (v : Value) : Prop :=
  if isList then ∃ vs, v = .list vs ∧ ∀ u ∈ vs, IsPart host u else v = .none ∨ IsPart host v

/-- What a field of the description gives for a part. -/
def Reading.value (w : World) : Reading → Value → Value
  | member name, .typeRef r => (Value.typeAttribute? w r name).getD .none
  | member name, .fieldRef t i => (Value.fieldAttribute? w t i name).getD .none
  | member _, _ => .none
  | allTypes, _ => .list (w.schema.allTypes.map .typeRef)
  | constant v, _ => v

/-- What a computation that changes nothing comes to. -/
theorem eq_pure_of_run {α : Type} {x : Making α} {v : α}
    (h : ∀ a, runOn x a = (.ok v, a)) : x = pure v := funext h

theorem isNew_list {α : Type} (as : List α) {f : α → Value} (settled : ∀ a, (f a).isNew = false) :
    (Value.list (as.map f)).isNew = false := by
  show Value.anyNew (as.map f) = false
  induction as with
  | nil => rfl
  | cons a as ih => rw [List.map_cons, Value.anyNew, settled a, ih]; rfl

theorem own_of_settled {v : Value} (settled : v.isNew = false) : Value.own (.ok v) = pure v := by
  show (if v.isNew then v.settled else pure v) = pure v
  rw [settled]
  rfl

section

variable {w : World} {s : Scope Value} {entity : Param} {v : Value}

theorem eval_param (here : s.lookup? entity = some v) :
    (Expr.param entity).eval w.host s = pure v := by
  have found : s.lookup entity = .ok v := by
    unfold Scope.lookup
    rw [here]
  rw [Expr.eval, found]
  rfl

/-- Reading a member that is neither missing nor new gives it. -/
theorem eval_member (here : s.lookup? entity = some v) (present : v.isNone = false) {name : String}
    {u : Value} (reads : ∀ a, Value.getAttr (w.after a) v name = .ok u)
    (settled : u.isNew = false) :
    (Expr.member (.param entity) name).eval w.host s = pure u := by
  rw [Expr.eval, eval_param here, pure_bind, present, if_neg Bool.false_ne_true]
  refine eq_pure_of_run fun a => ?_
  rw [runOn_now_bind, show w.host.world.after a = w.after a from rfl, reads a,
    own_of_settled settled]
  rfl

/-- The schema lists all of its types. -/
theorem eval_list_all_types {e : Expr Value} (evaluated : e.eval w.host s = pure .schema) :
    (Expr.method e "list_all_types" []).eval w.host s
      = pure (.list (w.schema.allTypes.map .typeRef)) := by
  rw [Expr.eval, evaluated, pure_bind]
  refine eq_pure_of_run fun a => ?_
  have called : runOn (Value.call w (.method .schema "list_all_types") []) a
      = runOn (Value.own (.ok (.list (w.schema.allTypes.map .typeRef)))) a := rfl
  rw [own_of_settled (isNew_list _ fun _ => rfl)] at called
  exact called

/-- The lambdas of the description read parts without leaving anything behind. -/
theorem Reading.eval {host : HostType} {r : DescribingField}
    (own : r ∈ Schema.describingFields host) (part : IsPart host v)
    (here : s.lookup? entity = some v) :
    (r.reading.body (.param entity)).eval w.host s = pure (r.reading.value w v) := by
  cases part with
  | schema =>
    simp only [Schema.describingFields, List.mem_cons, List.not_mem_nil, or_false] at own
    rcases own with rfl | rfl | rfl | rfl
    · exact eval_list_all_types (eval_param here)
    all_goals rfl
  | type t =>
    simp only [Schema.describingFields, List.mem_cons, List.not_mem_nil, or_false] at own
    rcases own with rfl | rfl | rfl | rfl | rfl
    · exact eval_member here rfl (fun _ => rfl) rfl
    · exact eval_member here rfl (fun _ => rfl) rfl
    · exact eval_member here rfl (fun _ => rfl) rfl
    · refine eval_member here rfl (fun _ => rfl) ?_
      cases t with
      | declared i => exact isNew_list _ fun _ => rfl
      | _ => rfl
    · rfl
  | field t i =>
    simp only [Schema.describingFields, List.mem_cons, List.not_mem_nil, or_false] at own
    rcases own with rfl | rfl | rfl | rfl | rfl
    · exact eval_member here rfl (fun _ => rfl) rfl
    · exact eval_member here rfl (fun _ => rfl) rfl
    · exact eval_member here rfl (fun _ => rfl) rfl
    all_goals rfl

/-- What leads to a type of the description gives parts of it. -/
theorem Reading.value_parts {host : HostType} {r : DescribingField}
    (own : r ∈ Schema.describingFields host) (target : (Schema.describingName? r.host).isSome)
    (part : IsPart host v) : AreParts r.host r.isList (r.reading.value w v) := by
  cases part with
  | schema =>
    simp only [Schema.describingFields, List.mem_cons, List.not_mem_nil, or_false] at own
    rcases own with rfl | rfl | rfl | rfl
    · refine ⟨_, rfl, fun u hu => ?_⟩
      obtain ⟨r, _, rfl⟩ := List.mem_map.1 hu
      exact .type r
    · exact .inl rfl
    · exact .inl rfl
    · cases target
  | type t =>
    simp only [Schema.describingFields, List.mem_cons, List.not_mem_nil, or_false] at own
    rcases own with rfl | rfl | rfl | rfl | rfl
    · cases target
    · cases target
    · cases target
    · cases t with
      | declared i =>
        refine ⟨_, rfl, fun u hu => ?_⟩
        obtain ⟨j, _, rfl⟩ := List.mem_map.1 hu
        exact .field i j
      | scalar i => exact ⟨[], rfl, fun _ hu => absurd hu List.not_mem_nil⟩
      | adHoc host => exact ⟨[], rfl, fun _ hu => absurd hu List.not_mem_nil⟩
    · exact ⟨[], rfl, fun _ hu => absurd hu List.not_mem_nil⟩
  | field t i =>
    simp only [Schema.describingFields, List.mem_cons, List.not_mem_nil, or_false] at own
    rcases own with rfl | rfl | rfl | rfl | rfl
    · cases target
    · cases target
    · exact .inr (.type _)
    · cases target
    · cases target

end

/-! ## What is described -/

/-- The record of a value, or of each of its elements. A missing value has none. -/
def Value.mapRecords (record : Value → Value) : Value → Value
  | .none => .none
  | .list vs => .list (vs.map record)
  | v => record v

namespace World

mutual

/-- What a selected field of the description gives for a part, with its records filled in or not.
The name of a type is filled in only. -/
def describedValue? (w : World) (filled : Bool) (host : HostType) (v : Value) :
    Selected → Option Value
  | .field name _ children =>
    match (Schema.describingFields host).find? (·.name == name) with
    | some r =>
      match Schema.describingName? r.host with
      | some typeName =>
        some ((r.reading.value w v).mapRecords fun u =>
          .record typeName (w.described filled r.host u children))
      | none => some (r.reading.value w v)
    | none => if filled then (Schema.describingName? host).map .str else none

/-- The entries of the record of a part for selected fields, in their order. -/
def described (w : World) (filled : Bool) (host : HostType) (v : Value) :
    List Selected → List (String × Value)
  | [] => []
  | s :: rest =>
    ((w.describedValue? filled host v s).map fun u => (s.name, u)).toList
      ++ w.described filled host v rest

end

theorem described_eq_filterMap (w : World) (filled : Bool) (host : HostType) (v : Value)
    (ss : List Selected) : w.described filled host v ss
      = ss.filterMap fun s => (w.describedValue? filled host v s).map fun u => (s.name, u) := by
  induction ss with
  | nil => rfl
  | cons s ss ih =>
    rw [described, ih, List.filterMap_cons]
    cases w.describedValue? filled host v s <;> rfl

end World

/-! ## Plans of the description -/

/-- The body of a lambda of the description has no lambda inside. -/
theorem Reading.body_plain (r : Reading) (entity : Param) :
    (r.body (.param entity)).shadows entity = false := by
  cases r <;> rfl

theorem mapM_eq_pure {α β : Type} {f : α → Making β} {g : α → β} {as : List α}
    (h : ∀ a ∈ as, f a = pure (g a)) : as.mapM f = pure (as.map g) := by
  induction as with
  | nil => rfl
  | cons a as ih =>
    rw [List.forall_mem_cons] at h
    rw [List.mapM_cons, h.1, ih h.2]
    rfl

/-- Where a plan makes the records of parts it makes all of them. -/
theorem Plan.resolve_parts {w : World} {context : Value} {isList : Bool} {typeName : String}
    {ms : List Member} {host : HostType} {entries : Value → List (String × Value)}
    (each : ∀ u, IsPart host u → resolveMembers w context u ms = pure (entries u)) {v : Value}
    (parts : AreParts host isList v) :
    (Plan.records isList typeName ms).resolve w context v
      = pure (v.mapRecords fun u => .record typeName (entries u)) := by
  cases isList with
  | true =>
    obtain ⟨vs, rfl, parts⟩ := parts
    have all : (vs.mapM fun u => do return .record typeName (← resolveMembers w context u ms))
        = (pure (vs.map fun u => Value.record typeName (entries u)) : Making (List Value)) :=
      mapM_eq_pure fun u hu => by rw [each u (parts u hu)]; rfl
    have present : (Value.list vs).isNone = false := rfl
    rw [Plan.resolve, present, if_neg Bool.false_ne_true, if_pos rfl]
    refine eq_pure_of_run fun a => ?_
    have elements : Value.elements (w.after a) (.list vs) = .ok vs := rfl
    rw [runOn_now_bind, elements, liftM_ok_bind, all]
    rfl
  | false =>
    rcases parts with rfl | part
    · rfl
    · have present : v.isNone = false := by cases part <;> rfl
      have single : v.mapRecords (fun u => .record typeName (entries u))
          = .record typeName (entries v) := by cases part <;> rfl
      rw [Plan.resolve, present, if_neg Bool.false_ne_true, if_neg Bool.false_ne_true, each v part,
        single]
      rfl

section

variable {w : World} (reached : w.IsReached) (described : Described w)

include reached described

/-- The target of a field of the description is a scalar, or a type of the description. -/
theorem typeOf_describing {host : HostType} {r : DescribingField}
    (own : r ∈ Schema.describingFields host) :
    Schema.describingName? r.host = none ∧ (w.schema.typeOf r.host).isScalar = true
      ∨ ∃ name, Schema.describingName? r.host = some name
        ∧ (w.schema.typeOf r.host).Describes w.schema.context
        ∧ (w.schema.typeOf r.host).name = name ∧ (w.schema.typeOf r.host).host = r.host := by
  rcases Schema.describingFields_host own with plain | target
  · refine .inl ⟨?_, reached.typeOf_plain plain⟩
    unfold Schema.describingName?
    split <;> first | rfl | (rename_i same; rw [same] at plain; cases plain)
  · obtain ⟨name, is⟩ := Option.isSome_iff_exists.1 target
    obtain ⟨t, found, host, describes⟩ := described.types _ target
    rw [← host, found.typeOf]
    refine .inr ⟨name, host ▸ is, describes, ?_, rfl⟩
    have same := describes.name
    rw [host, is] at same
    exact Option.some.inj same

/-- What a member makes of a part, if its field is one of the description. -/
theorem Member.resolves_described {t : TypeDecl} (describes : t.Describes w.schema.context)
    {name : String} {args : List (String × Value)} {children : List Selected} {entity : Param}
    {body : Expr Value} {plan : Plan} {f : FieldDecl} {a b : Trail}
    (found : t.findField? name = some f) (pre : f.isPost = false)
    (lends : Lends w t f args entity body a b)
    (scalar : (w.schema.typeOf f.host).isScalar = true → plan = .plain)
    (entities : (w.schema.typeOf f.host).Describes w.schema.context → plan.isPlain = true
      ∧ ∀ context v, AreParts (w.schema.typeOf f.host).host f.isList v →
        plan.resolve w context v = pure (v.mapRecords fun u =>
          .record (w.schema.typeOf f.host).name
            (w.described false (w.schema.typeOf f.host).host u children))) :
    (Member.mk name entity body plan).isPlain = true ∧ ∀ context v, IsPart t.host v →
      ∃ u, w.describedValue? false t.host v (.field name args children) = some u
        ∧ (Member.mk name entity body plan).resolve w context v = pure u := by
  rcases describes.of_findField? found with ⟨r, own, is⟩ | ⟨_, named⟩
  · have among := List.mem_of_find?_eq_some own
    obtain ⟨_, _, _, gives⟩ := lends
    obtain ⟨entity', source⟩ := is.source
    unfold FieldDecl.expression at gives
    rw [source] at gives
    cases gives
    have target := typeOf_describing reached described among
    rw [← is.host] at target
    have plain : plan.isPlain = true := by
      rcases target with ⟨_, bare⟩ | ⟨_, _, describes, _⟩
      · rw [scalar bare]
        rfl
      · exact (entities describes).1
    refine ⟨?_, fun context v part => ?_⟩
    · rw [Member.isPlain, r.reading.body_plain, plain]
      rfl
    · let function := Expr.lambda [w.schema.context, entity] (r.reading.body (.param entity))
      have evaluated : function.applyLambda w.host [context, v] = pure (r.reading.value w v) :=
        Reading.eval (s := .bind entity v (.bind w.schema.context context .empty)) among part
          (by simp [Scope.lookup?])
      rw [Member.resolve, evaluated, pure_bind, World.describedValue?, own]
      dsimp only
      rw [← is.host]
      rcases target with ⟨bare, scalar'⟩ | ⟨typeName, target, describes, rfl, host⟩
      · rw [bare, scalar scalar']
        exact ⟨_, rfl, rfl⟩
      · rw [target]
        have parts := Reading.value_parts (w := w) among (by rw [← is.host, target]; rfl) part
        rw [← is.host, ← is.isList, ← host] at parts
        refine ⟨_, rfl, ?_⟩
        rw [(entities describes).2 context _ parts, host]
  · cases named.isPost.symm.trans pre

omit reached described in
/-- The name of a type is not computed inside the query. -/
theorem describedValue?_post {t : TypeDecl} (describes : t.Describes w.schema.context)
    {s : Selected} {f : FieldDecl} (found : t.findField? s.name = some f) (post : f.isPost = true)
    (v : Value) : w.describedValue? false t.host v s = none := by
  obtain ⟨name, args, children⟩ := s
  rcases describes.of_findField? found with ⟨r, _, is⟩ | ⟨rfl, _⟩
  · cases is.isPost.symm.trans post
  · rw [World.describedValue?, Schema.describingFields_unnamed]
    rfl

mutual

/-- The plan of a type of the description is plain, and makes the records of parts that are
described, but for the names of types. -/
theorem Plans.resolves_described {t : TypeDecl} {isList : Bool} {ss : List Selected} {plan : Plan}
    {a b : Trail} (h : Plans w t isList ss plan a b) (describes : t.Describes w.schema.context)
    (apart : Apart ss) : plan.isPlain = true ∧ ∀ context v, AreParts t.host isList v →
      plan.resolve w context v
        = pure (v.mapRecords fun u => .record t.name (w.described false t.host u ss)) := by
  cases h with
  | scalar scalar =>
    rw [describes.entity] at scalar
    cases scalar
  | entity entity selected members =>
    obtain ⟨plain, each⟩ := members.resolves_described describes apart.nodup
      (fun _ _ => List.not_mem_nil) apart.beneath
    exact ⟨plain, fun context v parts => Plan.resolve_parts (each context) parts⟩

theorem PlansMembers.resolves_described {t : TypeDecl} {seen : List String} {ss : List Selected}
    {ms : List Member} {a b : Trail} (h : PlansMembers w t seen ss ms a b)
    (describes : t.Describes w.schema.context) (nodup : (ss.map (·.name)).Nodup)
    (new : ∀ s ∈ ss, s.name ∉ seen) (apart : ∀ s ∈ ss, Apart s.children) :
    arePlain ms = true ∧ ∀ context v, IsPart t.host v →
      resolveMembers w context v ms = pure (w.described false t.host v ss) := by
  cases h with
  | nil => exact ⟨rfl, fun _ _ _ => rfl⟩
  | @passed _ _ s rest _ f _ _ found passed later =>
    rw [List.map_cons, List.nodup_cons] at nodup
    rw [List.forall_mem_cons] at new apart
    obtain ⟨plain, each⟩ := later.resolves_described describes nodup.2 new.2 apart.2
    have post := passed.resolve_right new.1
    refine ⟨plain, fun context v part => ?_⟩
    rw [each context v part, World.described, describedValue?_post describes found post]
    rfl
  | @taken _ _ name args children rest entity body plan ms f _ m m' _ found pre unseen lends beneath
      later =>
    rw [List.map_cons, List.nodup_cons] at nodup
    rw [List.forall_mem_cons] at new apart
    have fresh : ∀ s ∈ rest, s.name ∉ seen ++ [name] := by
      intro s hs
      rw [List.mem_append, List.mem_singleton, not_or]
      exact ⟨new.2 s hs, fun same => nodup.1 (List.mem_map.2 ⟨s, hs, same⟩)⟩
    obtain ⟨plainAll, each⟩ := later.resolves_described describes nodup.2 fresh apart.2
    obtain ⟨plain, one⟩ := Member.resolves_described reached described describes found pre lends
      (fun scalar => by
        cases beneath with
        | scalar => rfl
        | entity entity => rw [scalar] at entity; cases entity)
      fun describes => beneath.resolves_described describes apart.1
    refine ⟨by rw [arePlain, plain, plainAll]; rfl, fun context v part => ?_⟩
    obtain ⟨u, value, resolved⟩ := one context v part
    rw [resolveMembers, resolved, pure_bind, each context v part, World.described, value]
    rfl

end

/-! ## Selections that can be composed -/

/-- Whether a selected field of a type of the description can be composed: it takes no arguments,
and something is selected beneath it if it leads to parts again, at every level. -/
inductive Asks : HostType → Selected → Prop
  | typeName {host : HostType} {args : List (String × Value)} :
      Asks host (.field Schema.typeNameName args [])
  | plain {host : HostType} {name : String} {r : DescribingField}
      (own : (Schema.describingFields host).find? (·.name == name) = some r)
      (bare : Schema.describingName? r.host = none) : Asks host (.field name [] [])
  | parts {host : HostType} {name : String} {children : List Selected} {r : DescribingField}
      (own : (Schema.describingFields host).find? (·.name == name) = some r)
      (target : (Schema.describingName? r.host).isSome) (selected : children ≠ [])
      (each : ∀ s ∈ children, Asks r.host s) : Asks host (.field name [] children)

/-- What was composed asks for fields of the description, without arguments. -/
theorem asks_of_composed {ss : List Selected} (apart : Apart ss) {t : TypeDecl}
    (describes : t.Describes w.schema.context) (composed : Compose.Composed w t ss) :
    ∀ s ∈ ss, Asks t.host s := by
  induction apart generalizing t with
  | @intro ss nodup beneath ih =>
    intro s hs
    obtain ⟨f, found⟩ := composed.found hs
    have flawless := composed.not_flaw
    have shape : s.children = [] ↔ (w.schema.typeOf f.host).isScalar = true := by
      by_contra other
      refine flawless (.misshapen hs found ?_)
      cases scalar : (w.schema.typeOf f.host).isScalar <;> simp_all
    obtain ⟨name, args, children⟩ := s
    rcases describes.of_findField? found with ⟨r, own, is⟩ | ⟨rfl, named⟩
    · have pre := is.isPost
      -- An argument that a field does not take is a flaw, at least of the first field of its name.
      have bare : args = [] := by
        obtain ⟨before, after, rfl⟩ := List.append_of_mem hs
        have first : name ∉ before.map (·.name) := by
          intro earlier
          rw [List.map_append, List.nodup_append] at nodup
          exact nodup.2.2 name earlier name (by simp [Selected.name]) rfl
        by_contra given
        refine flawless (.undeclared found pre first fun takes => ?_)
        rw [is.shape] at takes
        obtain ⟨a, ha⟩ := List.exists_mem_of_ne_nil args given
        cases takes [] rfl a ha
      subst bare
      have below := composed.beneath nodup hs found pre
      rcases typeOf_describing reached described (List.mem_of_find?_eq_some own) with
        ⟨bare, scalar⟩ | ⟨typeName, target, describes', _, host⟩
      · rw [← is.host] at scalar
        rw [show children = [] from shape.2 scalar]
        exact .plain own bare
      · rw [← is.host] at describes' host
        refine .parts own (by rw [target]; rfl) (fun none => ?_) fun s' hs' => ?_
        · rw [describes'.entity] at shape
          exact Bool.false_ne_true (shape.1 none)
        · have asks := ih _ hs describes' below s' hs'
          rwa [host, is.host] at asks
    · have scalar : (w.schema.typeOf f.host).isScalar = true := by
        rw [named.host]
        exact reached.typeOf_plain rfl
      rw [show children = [] from shape.2 scalar]
      exact .typeName

omit reached described in
/-- The lambda of a field of the description is lent without leaving anything behind. -/
theorem lend_describing {t : TypeDecl} {r : DescribingField} {f : FieldDecl}
    (is : f.Describes w.schema.context r) :
    ∃ lent, Compose.lend w t f [] = pure lent := by
  obtain ⟨entity, source⟩ := is.source
  refine ⟨(entity, r.reading.body (.param entity)), ?_⟩
  have expression : f.expression w t.name .none
      = pure (.lambda [w.schema.context, entity] (r.reading.body (.param entity))) := by
    unfold FieldDecl.expression
    rw [source]
  have replaceable :
      Compose.ensureReplaceable (r.reading.body (.param entity)) entity = .ok () := by
    cases r.reading <;> rfl
  have bound : f.shape.bind w w.schema.scalars [] = pure .none := by
    rw [is.shape]
    rfl
  unfold Compose.lend
  rw [bound, pure_bind, expression, pure_bind]
  dsimp only
  rw [if_pos (beq_self_eq_true _), replaceable]
  rfl

omit reached described in
/-- A field of the description is planned where something is selected beneath it exactly if it leads
to parts again. -/
theorem member_drawn {t : TypeDecl} {name : String} {r : DescribingField} {f : FieldDecl}
    {children : List Selected} (found : t.findField? name = some f)
    (is : f.Describes w.schema.context r)
    (shape : children.isEmpty = (w.schema.typeOf f.host).isScalar)
    (planned : ∃ plan, Compose.planWith (w.schema.typeOf f.host) f.isList children.isEmpty
      (Compose.members w (w.schema.typeOf f.host) [] children) = pure plan) (seen : List String) :
    ∃ o, Compose.member w t seen (.field name [] children) = pure o := by
  obtain ⟨plan, planned⟩ := planned
  obtain ⟨⟨entity, body⟩, lent⟩ := lend_describing (t := t) is
  have selects : Compose.selectedField w t name (!children.isEmpty) = .ok f := by
    unfold Compose.selectedField
    rw [found, shape]
    cases scalar : (w.schema.typeOf f.host).isScalar <;> simp [scalar]
  rw [Compose.member, selects, liftM_ok_bind, is.isPost, Bool.false_or]
  split
  · exact ⟨none, rfl⟩
  · refine ⟨some (.mk name entity body plan), ?_⟩
    rw [lent, pure_bind]
    dsimp only
    rw [planned]
    rfl

variable (sealed : Sealed w)

omit reached described in
/-- Members are planned where each of them is. -/
theorem members_drawn {t : TypeDecl} {ss : List Selected}
    (each : ∀ s ∈ ss, ∀ seen, ∃ o, Compose.member w t seen s = pure o) (seen : List String) :
    ∃ ms, Compose.members w t seen ss = pure ms := by
  induction ss generalizing seen with
  | nil => exact ⟨[], rfl⟩
  | cons s ss ih =>
    rw [List.forall_mem_cons] at each
    obtain ⟨o, first⟩ := each.1 seen
    rw [Compose.members, first, pure_bind]
    cases o with
    | none => exact ih each.2 seen
    | some m =>
      obtain ⟨ms, rest⟩ := ih each.2 (seen ++ [s.name])
      exact ⟨m :: ms, by rw [rest]; rfl⟩

omit reached described in
include sealed in
/-- A type whose members can be planned has a plan. -/
theorem planWith_drawn {host : HostType} {isList isEmpty : Bool}
    (entity : (w.schema.typeOf host).isScalar = false) (selected : isEmpty = false)
    {members : Making (List Member)} {ms : List Member} (drawn : members = pure ms) :
    ∃ plan, Compose.planWith (w.schema.typeOf host) isList isEmpty members = pure plan := by
  obtain ⟨_, projection, _⟩ := sealed.records _ (typeOf_mem entity) entity
  refine ⟨.records isList (w.schema.typeOf host).name ms, ?_⟩
  rw [Compose.planWith, entity, if_neg Bool.false_ne_true, selected, if_neg Bool.false_ne_true,
    projection, drawn]
  rfl

include sealed

/-- What is asked so is planned without leaving anything behind. -/
theorem Asks.drawn {host : HostType} {s : Selected} (asks : Asks host s) {t : TypeDecl}
    (describes : t.Describes w.schema.context) (own : t.host = host) (seen : List String) :
    ∃ o, Compose.member w t seen s = pure o := by
  induction asks generalizing t seen with
  | typeName =>
    obtain ⟨g, found, named⟩ := describes.findField?_typeName
    have scalar : (w.schema.typeOf g.host).isScalar = true := by
      rw [named.host]
      exact reached.typeOf_plain rfl
    have selected : Compose.selectedField w t Schema.typeNameName false = .ok g := by
      unfold Compose.selectedField
      rw [found]
      simp [scalar]
    refine ⟨none, ?_⟩
    rw [Compose.member]
    show (liftM (Compose.selectedField w t Schema.typeNameName false) >>= _) = _
    rw [selected, liftM_ok_bind, named.isPost]
    rfl
  | @plain host name r own' bare =>
    obtain ⟨f, found, is⟩ := describes.findField? (own ▸ own')
    obtain ⟨_, scalar⟩ := (typeOf_describing reached described
      (List.mem_of_find?_eq_some own')).resolve_right fun ⟨_, target, _⟩ => by simp [bare] at target
    rw [← is.host] at scalar
    have shape : ([] : List Selected).isEmpty = (w.schema.typeOf f.host).isScalar := scalar.symm
    refine member_drawn found is shape ⟨.plain, ?_⟩ seen
    rw [Compose.planWith, if_pos scalar]
  | @parts host name children r own' target selected each ih =>
    obtain ⟨f, found, is⟩ := describes.findField? (own ▸ own')
    obtain ⟨_, _, describes', _, host⟩ :=
      (typeOf_describing reached described (List.mem_of_find?_eq_some own')).resolve_left
        fun ⟨bare, _⟩ => by simp [bare] at target
    rw [← is.host] at describes' host
    have entity := describes'.entity
    have some : children.isEmpty = false := by simpa using selected
    refine member_drawn found is (some.trans entity.symm) ?_ seen
    obtain ⟨ms, drawn⟩ := members_drawn (w := w) (t := w.schema.typeOf f.host)
      (fun s hs => ih s hs describes' (host.trans is.host)) []
    exact planWith_drawn sealed entity some drawn

end

end EntityGraph
