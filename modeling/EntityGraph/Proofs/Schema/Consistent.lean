import EntityGraph.Proofs.Schema.Completed
import EntityGraph.Proofs.Schema.Frozen

/-!
# Schemas are consistent

Whatever was declared, and whichever of it failed: no two types have one host type or name, no two
fields of a type have one name, and neither have two queries or two scalars. Each of these is kept by
every single step, because no step adds anything without a look at what is there.

A complete schema has more to offer. Its entity types have at least one field that was declared
before completing began, or one of those that belong to the description of the schema. To see this,
one follows the types that were there when they were checked through the stages that came after the
check: none of these takes a field away, and the only types they add are those of the description.
-/

namespace EntityGraph

/-! ## Distinct names -/

/-- Schemas in which nothing is declared twice. -/
structure Distinct (s : Schema) : Prop where
  types : Orderly s.types
  fields : ∀ t ∈ s.types, (t.fields.map (·.name)).Nodup
  queries : (s.queries.map (·.name)).Nodup
  scalars : (s.scalars.map (·.name)).Nodup

theorem nodup_of_find?_none {α : Type} {xs : List α} {name : α → String} {y : α}
    (h : (xs.map name).Nodup) (free : xs.find? (fun x => name x == name y) = none) :
    ((xs ++ [y]).map name).Nodup := by
  refine nodup_map_append h fun x hx same => ?_
  have := List.find?_eq_none.1 free x hx
  rw [same] at this
  simp at this

theorem Addition.distinct {w w' : World} (step : Addition w w') (h : Distinct w.schema) :
    Distinct w'.schema := by
  have types := step.orderly h.types
  cases step with
  | number n => exact ⟨types, h.fields, h.queries, h.scalars⟩
  | type t isOpen host name fields projection =>
    refine ⟨types, fun u hu => ?_, h.queries, h.scalars⟩
    rcases List.mem_append.1 hu with hu | hu
    · exact h.fields u hu
    · rw [List.mem_singleton.1 hu, fields]
      exact List.nodup_nil
  | field i f isOpen name ofContext =>
    refine ⟨types, fun u hu => ?_, h.queries, h.scalars⟩
    obtain hu | ⟨t, ht, rfl⟩ := mem_modify hu
    · exact h.fields u hu
    · rw [Schema.typeAt_of_getElem? ht] at name
      exact nodup_of_find?_none (h.fields t (List.mem_of_getElem? ht)) name
  | query q isOpen reserved name ofContext =>
    exact ⟨types, h.fields, nodup_of_find?_none h.queries name, h.scalars⟩
  | adHoc host => exact ⟨types, h.fields, h.queries, h.scalars⟩

theorem Declaration.distinct {w w' : World} (step : Declaration w w') (h : Distinct w.schema) :
    Distinct w'.schema := by
  cases step with
  | addition step => exact step.distinct h
  | left t => exact ⟨h.types, h.fields, h.queries, h.scalars⟩
  | scalar e isOpen name => exact ⟨h.types, h.fields, h.queries, nodup_of_find?_none h.scalars name⟩

theorem Settlement.distinct {w w' : World} (step : Settlement w w') (h : Distinct w.schema) :
    Distinct w'.schema := by
  have types := step.orderly h.types
  cases step with
  | addition step => exact step.distinct h
  | allow b => exact ⟨types, h.fields, h.queries, h.scalars⟩
  | arrangement step =>
    cases step with
    | adHoc host => exact ⟨types, h.fields, h.queries, h.scalars⟩
    | projection i p =>
      refine ⟨types, fun u hu => ?_, h.queries, h.scalars⟩
      obtain hu | ⟨t, ht, rfl⟩ := mem_modify hu
      · exact h.fields u hu
      · exact h.fields t (List.mem_of_getElem? ht)
    | system sys => exact ⟨types, h.fields, h.queries, h.scalars⟩

theorem Settles.distinct {w w' : World} (steps : Settles w w') (h : Distinct w.schema) :
    Distinct w'.schema := by
  induction steps with
  | refl => exact h
  | tail _ step ih => exact step.distinct ih

theorem World.IsReached.distinct {w : World} (h : w.IsReached) : Distinct w.schema := by
  refine reached_induction (P := fun w => Distinct w.schema) ?_ ?_ ?_ h
  · intro v context supply
    refine ⟨⟨List.nodup_nil, List.nodup_nil⟩, fun _ ht => absurd ht List.not_mem_nil,
      List.nodup_nil, ?_⟩
    show (Registry.standard.map (·.name)).Nodup
    decide +kernel
  · exact fun _ _ step h => step.distinct h
  · intro w u _ _ h settled
    have steps : Settles w u := keeps_run Schema.keeps_settle settled
    obtain ⟨types, fields, queries, scalars⟩ := Settles.distinct steps h
    exact ⟨types, fields, queries, scalars⟩

/-- As long as a schema is open, the names through which it describes itself are not taken. -/
theorem World.IsReached.unreserved {w : World} (h : w.IsReached) :
    w.schema.completed = false → ∀ q ∈ w.schema.queries, q.name ∉ Schema.reservedQueries := by
  refine (reached_induction (P := fun w => Idle w ∧ (w.schema.completed = false →
    ∀ q ∈ w.schema.queries, q.name ∉ Schema.reservedQueries)) ?_ ?_ ?_ h).2
  · intro v context supply
    exact ⟨Session.idle_start v context supply, fun _ _ hq => absurd hq List.not_mem_nil⟩
  · rintro w w' step ⟨idle, ih⟩
    refine ⟨step.idle idle, ?_⟩
    cases step with
    | addition step =>
      cases step with
      | query q isOpen reserved name ofContext =>
        intro _ q' hq'
        rcases List.mem_append.1 hq' with hq' | hq'
        · exact ih isOpen q' hq'
        · rw [List.mem_singleton.1 hq']
          intro taken
          have allowed := reserved (List.contains_iff_mem.2 taken)
          rw [(idle isOpen).2] at allowed
          cases allowed
      | _ => exact ih
    | left t => exact ih
    | scalar e => exact ih
  · exact fun _ _ _ _ _ _ => ⟨nofun, nofun⟩

/-! ## What was declared before completing -/

/-- Worlds of which the second one keeps the types of the first with their fields, and has no other
types than these and those of the description. -/
def Extends (w w' : World) : Prop :=
  ∀ t ∈ w'.schema.types, (Schema.describingField? t.host).isSome
    ∨ ∃ s ∈ w.schema.types, s.host = t.host ∧ s.isScalar = t.isScalar ∧ s.fields <+: t.fields

instance : IsPreorder World Extends where
  refl _ t ht := .inr ⟨t, ht, rfl, rfl, List.prefix_rfl⟩
  trans w w' w'' h h' t ht := by
    rcases h' t ht with own | ⟨s, hs, host, scalar, fields⟩
    · exact .inl own
    · rcases h s hs with own | ⟨r, hr, host', scalar', fields'⟩
      · exact .inl (host ▸ own)
      · exact .inr ⟨r, hr, host'.trans host, scalar'.trans scalar, fields'.trans fields⟩

theorem extends_of_types {w w' : World} (types : w'.schema.types = w.schema.types) :
    Extends w w' :=
  fun t ht => .inr ⟨t, types ▸ ht, rfl, rfl, List.prefix_rfl⟩

theorem extends_changeType (w : World) (i : Nat) {f : TypeDecl → TypeDecl}
    (host : ∀ t, (f t).host = t.host) (scalar : ∀ t, (f t).isScalar = t.isScalar)
    (fields : ∀ t, t.fields <+: (f t).fields) : Extends w (w.changeType i f) := by
  intro t ht
  obtain ht | ⟨s, hs, rfl⟩ := mem_modify ht
  · exact .inr ⟨t, ht, rfl, rfl, List.prefix_rfl⟩
  · exact .inr ⟨s, List.mem_of_getElem? hs, (host s).symm, (scalar s).symm, fields s⟩

theorem extends_describing : Schema.Describing Extends where
  number w n := extends_of_types rfl
  field w i f _ _ _ := extends_changeType w i (fun _ => rfl) (fun _ => rfl) fun t => ⟨[f], rfl⟩
  type w t _ _ _ _ _ _ own := by
    intro u hu
    rcases List.mem_append.1 hu with hu | hu
    · exact .inr ⟨u, hu, rfl, rfl, List.prefix_rfl⟩
    · rw [List.mem_singleton.1 hu]
      exact .inl own
  query w q _ _ _ _ := extends_of_types rfl

theorem Arranges.extends {w w' : World} (steps : Arranges w w') : Extends w w' := by
  induction steps with
  | refl => exact extends_of_types rfl
  | tail _ step ih =>
    refine IsTrans.trans _ _ _ ih ?_
    cases step with
    | adHoc host => exact extends_of_types rfl
    | projection i p =>
      exact extends_changeType _ i (fun _ => rfl) (fun _ => rfl) fun t => List.prefix_rfl
    | system sys => exact extends_of_types rfl

namespace Schema

open Declaring

/-- The types were checked before anything was added to them. -/
theorem validateTypes_ok {w u : World} (h : runOn validateTypes w = (.ok (), u)) {t : TypeDecl}
    (ht : t ∈ w.schema.types) (unprojected : t.projection = none) : t.validate = .ok () := by
  unfold validateTypes at h
  rw [runOn_bind_ok (runOn_schema w)] at h
  have each (t : TypeDecl) : Keeps Eq
      (if t.projection.isNone then ofOutcome t.validate else pure ⟨⟩ : Declaring PUnit) :=
    keeps_ite (fun _ => keeps_ofOutcome _) fun _ => keeps_pure _
  obtain ⟨v, v', _, checked⟩ := forM_mem_ok h ht each
  rw [if_pos (by rw [unprojected]; rfl), runOn_ofOutcome] at checked
  exact congrArg Prod.fst checked

theorem addField_ok {owner : HostType} {name : String} {function : Value} {host : Option HostType}
    {isList : Bool} {description : String} {w u : World} {f : FieldDecl}
    (h : runOn (addField owner name function host isList description) w = (.ok f, u)) :
    HasField u owner name := by
  obtain ⟨i, w', found, rest⟩ := bind_eq_ok h
  obtain ⟨same, found⟩ := getType_found found
  subst same
  obtain ⟨t, place, is⟩ := findType?_place found
  obtain ⟨_, rest⟩ := ensureOpen_ok rest
  rw [runOn_bind_ok (runOn_typeAt i _)] at rest
  obtain ⟨e, w₂, made, rest⟩ := bind_eq_ok rest
  rw [runOn_bind_ok (runOn_get w₂)] at rest
  have place' : w₂.schema.types[i]? = some t := by
    rw [runOn_making, Prod.mk.injEq] at made
    rw [← made.2]
    exact place
  rw [(insertField_ok rest).2, ← is]
  exact hasField_withField place'

theorem addBodyField_ok {owner : HostType} {name : String} {body : Expr Value → Expr Value}
    {host : Option HostType} {isList : Bool} {w u : World}
    (h : runOn (addBodyField owner name body host isList) w = (.ok (), u)) :
    HasField u owner name := by
  obtain ⟨_, w₁, _, h⟩ := bind_eq_ok h
  obtain ⟨_, w₂, _, h⟩ := bind_eq_ok h
  obtain ⟨f, w₃, added, h⟩ := bind_eq_ok h
  cases h
  exact addField_ok added

theorem addSchemaType_ok {w u : World} (h : runOn addSchemaType w = (.ok (), u)) :
    HasField u .schema "types" := by
  obtain ⟨_, w₁, _, h⟩ := bind_eq_ok h
  obtain ⟨_, w₂, types, h⟩ := bind_eq_ok h
  refine Adds.hasField ?_ (addBodyField_ok types)
  have keeps (name : String) (body : Expr Value → Expr Value) (host : Option HostType)
      (isList : Bool) : Keeps Adds (addBodyField .schema name body host isList) :=
    keeps_addBodyField adds_describing _ _ _ _ _
  exact keeps_run
    (keeps_bind (keeps _ _ _ _) fun _ => keeps_bind (keeps _ _ _ _) fun _ => keeps _ _ _ _) h

theorem addEntityType_ok {w u : World} (h : runOn addEntityType w = (.ok (), u)) :
    HasField u .entityType "fields" := by
  obtain ⟨_, w₁, _, h⟩ := bind_eq_ok h
  obtain ⟨_, w₂, _, h⟩ := bind_eq_ok h
  obtain ⟨_, w₃, fields, h⟩ := bind_eq_ok h
  refine Adds.hasField ?_ (addBodyField_ok fields)
  exact keeps_run (keeps_addBodyField adds_describing _ _ _ _ _) h

theorem addFieldType_ok {w u : World} (h : runOn addFieldType w = (.ok (), u)) :
    HasField u .field "isDeprecated" := by
  obtain ⟨_, w₁, _, h⟩ := bind_eq_ok h
  obtain ⟨_, w₂, _, h⟩ := bind_eq_ok h
  obtain ⟨_, w₃, deprecated, h⟩ := bind_eq_ok h
  refine Adds.hasField ?_ (addBodyField_ok deprecated)
  exact keeps_run (keeps_addBodyField adds_describing _ _ _ _ _) h

/-- The types of the description have the fields that they are declared with. -/
theorem addDescription_hasFields {w u : World} (h : runOn addDescription w = (.ok (), u))
    {host : HostType} {name : String} (own : describingField? host = some name) :
    HasField u host name := by
  obtain ⟨_, w₁, schemas, h⟩ := bind_eq_ok h
  obtain ⟨_, w₂, entities, h⟩ := bind_eq_ok h
  obtain ⟨_, w₃, fields, h⟩ := bind_eq_ok h
  have afterEntities : Adds w₁ w₂ := keeps_run (keeps_addEntityType adds_describing) entities
  have afterFields : Adds w₂ w₃ := keeps_run (keeps_addFieldType adds_describing) fields
  have afterAll : Adds w₃ u := by
    refine keeps_run (keeps_bind (keeps_addSchemaQueries adds_describing) fun _ => ?_) h
    refine keeps_bind keeps_schema fun s => keeps_forM _ fun t _ => ?_
    exact keeps_addTypeName adds_number adds_field t
  unfold describingField? at own
  split at own <;> cases own
  · exact Adds.hasField (afterEntities.trans (afterFields.trans afterAll)) (addSchemaType_ok schemas)
  · exact Adds.hasField (afterFields.trans afterAll) (addEntityType_ok entities)
  · exact Adds.hasField afterAll (addFieldType_ok fields)

end Schema

/-- Whether a type has a field that was declared on it, in a world in which its schema was still
open, or that belongs to the description of the schema. -/
def TypeDecl.IsDeclared (w : World) (t : TypeDecl) : Prop :=
  (∃ s ∈ w.schema.types, s.host = t.host ∧ s.fields ≠ [] ∧ s.fields <+: t.fields)
    ∨ ∃ name, Schema.describingField? t.host = some name ∧ (t.findField? name).isSome

theorem Schema.settle_declared {w u : World} (h : runOn settle w = (.ok (), u))
    (orderly : Orderly w.schema.types) (unprojected : Unprojected w) {t : TypeDecl}
    (ht : t ∈ u.schema.types) (entity : t.isScalar = false) : t.IsDeclared w := by
  have ordered : Orderly u.schema.types := Settles.orderly (keeps_run keeps_settle h) orderly
  obtain ⟨valid, v, drawn, h⟩ := settle_stages h
  have arranged : Arranges (v.allowing false) u := keeps_run keeps_arranging h
  have drew : Extends (w.allowing true) v := keeps_run (keeps_addDescription extends_describing) drawn
  have grown : Extends w u := by
    have later : Extends (v.allowing false) u := arranged.extends
    exact IsTrans.trans (r := Extends) _ _ _ drew later
  rcases grown t ht with own | ⟨s, hs, host, scalar, fields⟩
  · obtain ⟨name, own⟩ := Option.isSome_iff_exists.1 own
    obtain ⟨s, hs, host, named⟩ := addDescription_hasFields drawn own
    -- The projections that were settled since do not touch the fields.
    obtain ⟨s', hs', host', named'⟩ := Arranges.hasField arranged ⟨s, hs, host, named⟩
    rw [List.inj_on_of_nodup_map ordered.hosts hs' ht host'] at named'
    exact .inr ⟨name, own, named'⟩
  · refine .inl ⟨s, hs, host, ?_, fields⟩
    have checked := validateTypes_ok valid hs (unprojected s hs)
    intro none
    unfold TypeDecl.validate at checked
    rw [scalar, entity, none] at checked
    cases checked

/-! ## Histories -/

/-- A type of a complete schema, which was completed in a world. -/
structure TypeDecl.IsComplete (w : World) (t : TypeDecl) : Prop where
  settled : t.IsSettled
  named : t.isScalar = false → (t.fields.map (·.name)).count Schema.typeNameName = 1
  declared : t.isScalar = false → t.IsDeclared w

theorem Schema.settle_complete {w u : World} (reached : w.IsReached)
    (isOpen : w.schema.completed = false) (h : runOn settle w = (.ok (), u)) {t : TypeDecl}
    (ht : t ∈ u.schema.types) : t.IsComplete w := by
  have unprojected := reached.unprojected isOpen
  obtain ⟨sealed, _⟩ := settle_ok h reached.orderly unprojected
  have distinct : Distinct u.schema := Settles.distinct (keeps_run keeps_settle h) reached.distinct
  refine ⟨sealed.settled t ht, fun entity => ?_, settle_declared h reached.orderly unprojected ht⟩
  refine List.count_eq_one_of_mem (distinct.fields t ht) ?_
  obtain ⟨f, found⟩ := Option.isSome_iff_exists.1 (sealed.named t ht entity)
  have name : f.name = typeNameName := by simpa using List.find?_some found
  exact List.mem_map.2 ⟨f, List.mem_of_find?_eq_some found, name⟩

namespace Session

/-- A complete schema was completed at one point of its history. -/
theorem completed_once (s : Session) (idle : Idle s.world) (isOpen : s.world.schema.completed = false)
    (past : List Event) (completed : (s.after past).world.schema.completed = true) :
    ∃ before later, past = before ++ .complete :: later
      ∧ (s.after before).world.schema.completed = false
      ∧ ∃ u, runOn Schema.settle (s.after before).world = (.ok (), u)
        ∧ (s.after (before ++ [.complete])).world = u.closed := by
  induction past using List.reverseRecOn with
  | nil => cases isOpen.symm.trans completed
  | append_singleton es e ih =>
    cases already : (s.after es).world.schema.completed with
    | true =>
      obtain ⟨before, later, rfl, rest⟩ := ih already
      exact ⟨before, later ++ [e], by simp, rest⟩
    | false =>
      rw [after_append] at completed
      have idle' := idle_after s es idle
      -- Only an attempt to complete the schema can have closed it.
      cases completion : e.isCompletion with
      | false =>
        have kept := (Event.keeps_act completion (s.after es)).completed
        cases (kept.trans already).symm.trans completed
      | true =>
        cases e <;> try cases completion
        refine ⟨es, [], rfl, already, ?_⟩
        rw [after_append]
        obtain steps | ⟨_, settled⟩ := act_cases .complete (s.after es) idle'
        · cases (steps.completed.trans already).symm.trans completed
        · exact settled

/-- Whatever an application does, its schema declares nothing twice, and leaves the names that
belong to the description of a schema alone while it is open. Once it is complete, each of its types
has all that a complete type has, the queries of the description are there, and if nothing but
declarations came after completing, the arguments of all fields and queries are scalars. -/
theorem history_consistent (v : World) (context : Param) (supply : Nat) (past : List Event) :
    let s := (start v context supply).after past
    Distinct s.world.schema
      ∧ (s.world.schema.completed = false →
        ∀ q ∈ s.world.schema.queries, q.name ∉ Schema.reservedQueries)
      ∧ (s.world.schema.completed = true →
        ∃ before later, past = before ++ .complete :: later
          ∧ (∀ t ∈ s.world.schema.types,
            t.IsComplete ((start v context supply).after before).world)
          ∧ Schema.HasOwnQueries s.world.schema.queries
          ∧ ((∀ e ∈ later, e.isDeclaration = true) → Schema.ScalarArguments s.world)) := by
  intro s
  have reached (es : List Event) : ((start v context supply).after es).world.IsReached :=
    ⟨v, context, supply, es, rfl⟩
  refine ⟨(reached past).distinct, (reached past).unreserved, fun completed => ?_⟩
  obtain ⟨before, later, rfl, isOpen, u, settled, closed⟩ :=
    completed_once _ (idle_start v context supply) rfl past completed
  have whole : s = ((start v context supply).after (before ++ [.complete])).after later := by
    rw [← after_append, List.append_assoc]
    rfl
  have since : ((start v context supply).after (before ++ [.complete])).world.schema.completed
      = true := by
    rw [closed]
    rfl
  obtain ⟨n, hosts, same⟩ : SameSchema u.closed s.world := by
    rw [whole, ← closed]
    exact sameSchema_after later since
  have unprojected := (reached before).unprojected isOpen
  obtain ⟨sealed, arguments⟩ := Schema.settle_ok settled (reached before).orderly unprojected
  refine ⟨before, later, rfl, fun t ht => ?_, ?_, fun declare => ?_⟩
  · rw [same] at ht
    exact Schema.settle_complete (reached before) isOpen settled ht
  · rw [same]
    exact sealed.own
  · rw [whole, after_refused since declare, closed]
    exact arguments

/-- A type with one field and a query with one argument, completed, and then a type too late. -/
def declared : List Event :=
  [.addType (.declared "User") none "",
    .addPostField (.declared "User") "nick" .none none (some (.builtin .str)) "",
    .addQueryWithArgs .modified "users" (.declared "User") (.defaults [(.str "of", .int 3)]) .none "",
    .complete, .addType (.declared "Late") none ""]

theorem declared_consistent :
    let s := (start default ⟨0, "context"⟩ 1).after declared
    s.world.schema.completed = true ∧ s.world.schema.types.length = 4
      ∧ Distinct s.world.schema ∧ Schema.ScalarArguments s.world
      ∧ ∃ before later, declared = before ++ .complete :: later
        ∧ ∀ t ∈ s.world.schema.types,
          t.IsComplete ((start default ⟨0, "context"⟩ 1).after before).world := by
  -- the schema itself is large, so only the facts about it that count are given to the proof
  have consistent (past : List Event) (s : Session)
      (h : (start default ⟨0, "context"⟩ 1).after past = s)
      (completed : s.world.schema.completed = true)
      (declare : ∀ e ∈ past, e.isDeclaration = true) :
      Distinct s.world.schema ∧ Schema.ScalarArguments s.world
        ∧ ∃ before later, past = before ++ .complete :: later
          ∧ ∀ t ∈ s.world.schema.types,
            t.IsComplete ((start default ⟨0, "context"⟩ 1).after before).world := by
    subst h
    obtain ⟨distinct, _, complete⟩ := history_consistent default ⟨0, "context"⟩ 1 past
    obtain ⟨before, later, split, types, _, arguments⟩ := complete completed
    refine ⟨distinct, arguments fun e he => declare e ?_, before, later, split, types⟩
    rw [split]
    simp [he]
  exact ⟨by decide +kernel, by decide +kernel,
    consistent declared _ rfl (by decide +kernel) (by decide +kernel)⟩

end Session

end EntityGraph
