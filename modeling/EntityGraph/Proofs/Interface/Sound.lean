import EntityGraph.Proofs.Interface.Mirror
import EntityGraph.Proofs.Schema.Completed
import EntityGraph.Proofs.Schema.Frozen
import EntityGraph.Request.Execute

/-!
# Which schemas offer a usable type system

The request language demands of a type system that every object has a field and that no name is one
of introspection. Completing a schema counts all declarations, and leaves out those types, fields and
queries that have a reserved name when it draws the type system. It does not look at the names of
arguments and scalars, nor at what is left afterwards.

This module says which declarations are offered in a form that requests can be checked against, and
that documents are checked at all exactly for these.
-/

namespace EntityGraph

namespace Interface

/-! ## Whatever is placed was given or reached -/

theorem Reached.name_of_same {r s : Reached} (h : r.same s = true) : r.name = s.name := by
  cases r <;> cases s <;> simp_all [same, name]

section

variable {fieldsOf : Reached → Outcome (List Draw)} {P : Reached → Prop}

/-- Whether the types that are reached from types with a property have this property. -/
def Spreads (fieldsOf : Reached → Outcome (List Draw)) (P : Reached → Prop) : Prop :=
  ∀ r drawn, P r → fieldsOf r = .ok drawn → ∀ x ∈ drawn.flatMap (·.reaches), P x

theorem place_all (spreads : Spreads fieldsOf P) {waiting : List Reached} {depth : Nat}
    {done after : Placed} {r : Reached} (given : P r) (before : ∀ e ∈ done, P e.1)
    (h : place fieldsOf waiting depth done r = .ok after) : ∀ e ∈ after, P e.1 := by
  induction depth generalizing done r after with
  | zero =>
    cases h
    exact before
  | succ depth ih =>
    unfold place at h
    split at h
    · cases h
      exact before
    · obtain ⟨drawn, made, h⟩ := outcome_bind_ok h
      refine outcome_foldlM_keeps (P := fun done => ∀ e ∈ done, P e.1) ?_ ?_ h
      · exact fun x hx _ _ before placed => ih (spreads r drawn given made x hx) before placed
      · intro e he
        rcases List.mem_append.1 he with he | he
        · exact before e he
        · rw [List.mem_singleton.1 he]
          exact given

theorem mem_distinctReached {rs : List Reached} {x : Reached} (h : x ∈ distinctReached rs) :
    x ∈ rs := by
  have kept (rs found : List Reached) (h : x ∈ rs.foldl (fun found r =>
      if found.any (·.same r) then found else found ++ [r]) found) : x ∈ found ∨ x ∈ rs := by
    induction rs generalizing found with
    | nil => exact .inl h
    | cons r rs ih =>
      rw [List.mem_cons]
      rcases ih _ h with first | rest
      · dsimp only at first
        split at first
        · exact .inl first
        · rcases List.mem_append.1 first with first | first
          · exact .inl first
          · exact .inr (.inl (List.mem_singleton.1 first))
      · exact .inr (.inr rest)
  exact (kept rs [] h).resolve_left List.not_mem_nil

theorem any_distinctReached {rs : List Reached} {x : Reached} (h : x ∈ rs) :
    (distinctReached rs).any (·.same x) = true := by
  have kept (rs found : List Reached) (h : found.any (·.same x) = true ∨ x ∈ rs) :
      (rs.foldl (fun found r =>
        if found.any (·.same r) then found else found ++ [r]) found).any (·.same x) = true := by
    induction rs generalizing found with
    | nil => exact h.resolve_right List.not_mem_nil
    | cons r rs ih =>
      refine ih _ ?_
      rw [List.mem_cons] at h
      rcases h with first | rfl | rest
      · left
        dsimp only
        split
        · exact first
        · rw [List.any_append, first, Bool.true_or]
      · left
        dsimp only
        split
        · assumption
        · simp [Reached.same_refl]
      · exact .inr rest
  exact kept rs [] (.inr h)

theorem placeAll_all (spreads : Spreads fieldsOf P) {depth : Nat} {given : List Reached}
    {done after : Placed} (all : ∀ r ∈ given, P r) (before : ∀ e ∈ done, P e.1)
    (h : placeAll fieldsOf depth given done = .ok after) : ∀ e ∈ after, P e.1 := by
  refine (placeAll_keeps (P := fun given done => (∀ r ∈ given, P r) ∧ ∀ e ∈ done, P e.1) ?_
    ⟨all, before⟩ h).2
  rintro r rest done middle ⟨all, before⟩ first
  rw [List.forall_mem_cons] at all
  exact ⟨all.2, place_all spreads all.1 before first⟩

variable {objects : List String}

/-- Whatever is given is placed in the end. -/
theorem placeAll_accounted (scalars : ∀ r, r.isScalar = true → fieldsOf r = .ok [])
    (within : Within fieldsOf objects) {depth : Nat} {given : List Reached} {done after : Placed}
    (before : Complete fieldsOf objects given done)
    (h : placeAll fieldsOf (depth + 2) given done = .ok after) {x : Reached}
    (known : Accounted done given x) : Accounted after [] x := by
  let P (given : List Reached) (done : Placed) : Prop :=
    Complete fieldsOf objects given done ∧ Accounted done given x
  refine (placeAll_keeps (P := P) ?_ ⟨before, known⟩ h).2
  rintro r rest done middle ⟨before, known⟩ first
  obtain ⟨⟨more, rfl⟩, complete, placed⟩ := before.place scalars within first
  exact ⟨complete, known.turn placed⟩

end

/-! ## Names in a type system -/

/-- Whether a drawn field has no reserved name about it, apart from its own. -/
def Draw.IsFree (d : Draw) : Prop :=
  (∀ a ∈ d.field.args, isReserved a.name = false) ∧ ∀ r ∈ d.reaches, isReserved r.name = false

/-- Whether a field with this type and these arguments can be offered: no argument has a reserved
name, and no type that it mentions has. -/
structure Offers (w : World) (host : HostType) (shape : ArgShape) : Prop where
  type : isReserved (w.schema.typeOf host).name = false
  args : ∀ types, shape.types w = .ok types → ∀ p ∈ types,
    isReserved (w.schema.typeOf p.2).name = false
      ∧ ∀ n, p.1.text? = some n → isReserved n = false

theorem reachedBy_name {s : Schema} {t : TypeDecl} {r : Reached} (h : reachedBy s t = .ok r) :
    r.name = t.name := by
  obtain ⟨_, d, rfl⟩ | ⟨_, _, rfl⟩ := reachedBy_ok h <;> rfl

/-- A field is drawn without reserved names exactly if it can be offered. -/
theorem drawField_isFree {w : World} {name description : String} {host : HostType} {isList : Bool}
    {shape : ArgShape} {d : Draw} (h : drawField w name description host isList shape = .ok d) :
    d.IsFree ↔ Offers w host shape := by
  obtain ⟨r, types, args, target, shown, made, -, -, offered, reaches⟩ := drawField_of h
  have same := reachedBy_name target
  unfold Draw.IsFree
  rw [offered, reaches, List.forall_mem_cons, List.forall_mem_map, List.forall_mem_map]
  constructor
  · rintro ⟨named, first, reached⟩
    refine ⟨same ▸ first, fun types' shown' p hp => ?_⟩
    obtain rfl : types = types' := Except.ok.inj (shown.symm.trans shown')
    obtain ⟨a, drawn, ha⟩ := outcome_mapM_each made hp
    obtain ⟨text, ⟨_, scalar⟩, _⟩ := drawArgument_ok drawn
    have free := reached a ha
    rw [scalar] at free
    refine ⟨free, fun n known => ?_⟩
    rw [Option.some.inj (known.symm.trans text)]
    exact named a ha
  · intro offers
    have each : ∀ a ∈ args, isReserved a.1.name = false ∧ isReserved a.2.name = false := by
      intro a ha
      obtain ⟨p, hp, drawn⟩ := outcome_mapM_mem made ha
      obtain ⟨text, ⟨_, scalar⟩, _⟩ := drawArgument_ok drawn
      obtain ⟨free, named⟩ := offers.args types shown p hp
      rw [scalar]
      exact ⟨named _ text, free⟩
    exact ⟨fun a ha => (each a ha).1, same ▸ offers.type, fun a ha => (each a ha).2⟩

end Interface

open Interface

/-- Whether requests can be checked against the type system of a schema. What is demanded here is what
completing does not look at: that a query and a field of every object is left, and that no argument
and no scalar has a reserved name. -/
structure World.IsUsable (w : World) : Prop where
  someQuery : ∃ q ∈ w.schema.queries, isReserved q.name = false
  someField : ∀ t ∈ objectTypes w.schema, ∃ f ∈ t.fields, isReserved f.name = false
  queries : ∀ q ∈ w.schema.queries, isReserved q.name = false → Offers w q.host q.shape
  fields : ∀ t ∈ objectTypes w.schema, ∀ f ∈ t.fields, isReserved f.name = false →
    Offers w f.host f.shape
  scalars : ∀ e ∈ w.schema.scalars, isReserved e.typeDecl.name = false

namespace Interface

/-! ## Objects without reserved names -/

/-- Whether drawn fields are as the request language demands of an object and of whatever the object
reaches. -/
def AreSound (ds : List Draw) : Prop :=
  ds ≠ [] ∧ ∀ d ∈ ds, isReserved d.field.name = false ∧ d.IsFree

section

variable {w : World} {sys : TypeSystem} {queries : List Draw} {placed : Placed} {met : List Reached}

/-- Of declarations, those are drawn that have no reserved name. -/
theorem areSound_drawn {α : Type} {xs : List α} {name description : α → String}
    {host : α → HostType} {isList : α → Bool} {shape : α → ArgShape} {ds : List Draw}
    (h : (xs.filter fun x => !isReserved (name x)).mapM (fun x =>
      drawField w (name x) (description x) (host x) (isList x) (shape x)) = .ok ds) :
    AreSound ds ↔ (∃ x ∈ xs, isReserved (name x) = false)
      ∧ ∀ x ∈ xs, isReserved (name x) = false → Offers w (host x) (shape x) := by
  have among {x : α} : x ∈ xs.filter (fun x => !isReserved (name x))
      ↔ x ∈ xs ∧ isReserved (name x) = false := by
    simp [List.mem_filter]
  constructor
  · rintro ⟨some, each⟩
    obtain ⟨d, hd⟩ := List.exists_mem_of_ne_nil ds some
    obtain ⟨x, hx, _⟩ := outcome_mapM_mem h hd
    refine ⟨⟨x, among.1 hx⟩, fun x hx free => ?_⟩
    obtain ⟨d, made, hd⟩ := outcome_mapM_each h (among.2 ⟨hx, free⟩)
    exact (drawField_isFree made).1 (each d hd).2
  · rintro ⟨⟨x, hx⟩, each⟩
    obtain ⟨d, _, hd⟩ := outcome_mapM_each h (among.2 hx)
    refine ⟨List.ne_nil_of_mem hd, fun d hd => ?_⟩
    obtain ⟨x, hx, made⟩ := outcome_mapM_mem h hd
    obtain ⟨hx, free⟩ := among.1 hx
    exact ⟨(drawField_ok made).1 ▸ free, (drawField_isFree made).2 (each x hx free)⟩

/-- A usable schema is one all of whose objects, and whose root type, are drawn soundly, if its scalars
have free names. -/
theorem isUsable_iff (drawn : drawQueries w = .ok queries)
    (objects : ∀ t ∈ objectTypes w.schema, ∃ ds, drawFields w t = .ok ds) :
    w.IsUsable ↔ AreSound queries
      ∧ (∀ t ∈ objectTypes w.schema, ∀ ds, drawFields w t = .ok ds → AreSound ds)
      ∧ ∀ e ∈ w.schema.scalars, isReserved e.typeDecl.name = false := by
  have root := areSound_drawn drawn
  constructor
  · intro usable
    refine ⟨root.2 ⟨usable.someQuery, usable.queries⟩, fun t ht ds made => ?_, usable.scalars⟩
    exact (areSound_drawn (drawFields_ok made)).2 ⟨usable.someField t ht, usable.fields t ht⟩
  · rintro ⟨queries, sound, scalars⟩
    have own (t : TypeDecl) (ht : t ∈ objectTypes w.schema) :
        (∃ f ∈ t.fields, isReserved f.name = false)
          ∧ ∀ f ∈ t.fields, isReserved f.name = false → Offers w f.host f.shape := by
      obtain ⟨ds, made⟩ := objects t ht
      exact (areSound_drawn (drawFields_ok made)).1 (sound t ht ds made)
    have asked := root.1 queries
    exact ⟨asked.1, fun t ht => (own t ht).1, asked.2, fun t ht => (own t ht).2, scalars⟩

/-- What a type system must be like, told by the types that were placed for it. -/
theorem Origin.isSound_iff (o : Origin w sys queries placed met) :
    sys.isSound = true ↔ ∀ e ∈ placed, isReserved e.1.name = false
      ∧ (e.1.isScalar = false → AreSound e.2) := by
  have scalarDraws {e : Reached × List Draw} (he : e ∈ placed) (scalar : e.1.isScalar = true) :
      e.2 = [] := by
    have made := o.complete.consistent.drawn e he
    rw [drawsOf_scalar w queries e.1 scalar] at made
    exact (Except.ok.inj made).symm
  have rule (e : Reached × List Draw) (he : e ∈ placed) :
      let t := definition w.schema met e.1 e.2
      (!isReserved t.name && (!t.isObject || !t.fields.isEmpty)
          && t.fields.all fun f => !isReserved f.name && f.args.all (!isReserved ·.name)) = true
        ↔ isReserved e.1.name = false ∧ (e.1.isScalar = false → e.2 ≠ []
          ∧ ∀ d ∈ e.2, isReserved d.field.name = false
            ∧ ∀ a ∈ d.field.args, isReserved a.name = false) := by
    obtain ⟨r, ds⟩ := e
    cases r <;> simp [definition, TypeDef.isObject, TypeDef.fields, Reached.isScalar, and_assoc]
  unfold TypeSystem.isSound
  rw [o.types, List.all_map, List.all_eq_true]
  constructor
  · intro sound e he
    obtain ⟨free, own⟩ := (rule e he).1 (sound e he)
    refine ⟨free, fun entity => ⟨(own entity).1, fun d hd => ?_⟩⟩
    obtain ⟨named, args⟩ := (own entity).2 d hd
    refine ⟨named, args, fun x hx => ?_⟩
    -- Whatever a placed type reaches is placed under the same name.
    have known := o.complete.consistent.closed e he x (List.mem_flatMap.2 ⟨d, hd, hx⟩)
    obtain ⟨e', he', same⟩ := known.placed
    rw [← Reached.name_of_same same]
    exact ((rule e' he').1 (sound e' he')).1
  · intro each e he
    obtain ⟨free, own⟩ := each e he
    refine (rule e he).2 ⟨free, fun entity => ⟨(own entity).1, fun d hd => ?_⟩⟩
    exact ⟨((own entity).2 d hd).1, ((own entity).2 d hd).2.1⟩

/-! ## Usable schemas -/

/-- What a type is like that can be placed for a usable schema. -/
def IsPlaceable (w : World) (r : Reached) : Prop :=
  isReserved r.name = false ∧ ∀ n, r = .object n → ∃ t ∈ objectTypes w.schema, t.name = n

theorem scalarOf_placeable {t : TypeDecl} {r : Reached} (h : scalarOf t = .ok r)
    (free : isReserved t.name = false) : IsPlaceable w r := by
  obtain ⟨d, rfl⟩ := scalarOf_ok h
  exact ⟨free, nofun⟩

/-- The fields of a placeable type are those of the root type, or of an object that there is. -/
theorem areSound_of_placeable (drawn : drawQueries w = .ok queries) (usable : w.IsUsable)
    {r : Reached} {ds : List Draw} (placeable : IsPlaceable w r)
    (h : drawsOf w queries r = .ok ds) : r.isScalar = true ∧ ds = [] ∨ AreSound ds := by
  cases r with
  | scalar n d =>
    cases h
    exact .inl ⟨rfl, rfl⟩
  | object n =>
    right
    obtain ⟨t, ht, rfl⟩ := placeable.2 n rfl
    have found : ((objectTypes w.schema).find? (·.name == t.name)).isSome :=
      List.find?_isSome.2 ⟨t, ht, beq_self_eq_true _⟩
    obtain ⟨u, hu⟩ := Option.isSome_iff_exists.1 found
    have among := List.mem_of_find?_eq_some hu
    simp only [drawsOf, hu, Option.getD_some] at h
    exact (areSound_drawn (drawFields_ok h)).2 ⟨usable.someField u among, usable.fields u among⟩
  | root =>
    obtain ⟨_, _, h⟩ := outcome_bind_ok h
    cases h
    exact .inr ((areSound_drawn drawn).2 ⟨usable.someQuery, usable.queries⟩)

theorem spreads_placeable (drawn : drawQueries w = .ok queries) (usable : w.IsUsable) :
    Spreads (drawsOf w queries) (IsPlaceable w) := by
  intro r ds placeable made x hx
  constructor
  · obtain ⟨_, rfl⟩ | sound := areSound_of_placeable drawn usable placeable made
    · cases hx
    · obtain ⟨d, hd, reached⟩ := List.mem_flatMap.1 hx
      exact (sound.2 d hd).2.2 x reached
  · rintro n rfl
    obtain scalar | ⟨m, hm, same⟩ := drawsOf_within drawn r ds made _ hx
    · cases scalar
    · cases same
      obtain ⟨t, ht, rfl⟩ := List.mem_map.1 hm
      exact ⟨t, ht, rfl⟩

theorem Origin.placeable (o : Origin w sys queries placed met) (usable : w.IsUsable) :
    ∀ e ∈ placed, IsPlaceable w e.1 := by
  have spreads := spreads_placeable o.drawn usable
  have root : IsPlaceable w .root := ⟨by decide +kernel, fun _ same => by cases same⟩
  have reached : ∀ x ∈ queries.flatMap (·.reaches), IsPlaceable w x :=
    spreads .root queries root (o.complete.consistent.drawn _ o.rootPlaced)
  obtain ⟨entries, made, places⟩ := o.places
  unfold placeTypes at places
  obtain ⟨middle, given, places⟩ := outcome_bind_ok places
  have first : ∀ e ∈ middle, IsPlaceable w e.1 := by
    refine placeAll_all spreads (fun r hr => ?_) (fun _ he => absurd he List.not_mem_nil) given
    unfold givenTypes at hr
    rcases List.mem_append.1 hr with hr | hr
    · rcases List.mem_append.1 (mem_distinctReached hr) with hr | hr
      · exact reached r (List.mem_of_mem_filter hr)
      · obtain ⟨e, he, scalar⟩ := outcome_mapM_mem made hr
        exact scalarOf_placeable scalar (usable.scalars e he)
    · obtain ⟨t, ht, rfl⟩ := List.mem_map.1 hr
      have free : isReserved t.name = false := by
        simpa using (Bool.and_eq_true_iff.1 (List.mem_filter.1 ht).2).2
      exact ⟨free, fun n same => ⟨t, ht, Reached.object.inj same⟩⟩
  refine outcome_foldlM_keeps (P := fun done => ∀ e ∈ done, IsPlaceable w e.1) ?_ first places
  refine fun r hr _ _ before placed => place_all spreads ?_ before placed
  rcases List.mem_cons.1 hr with rfl | hr
  · exact root
  · unfold languageScalars at hr
    simp only [List.mem_cons, List.not_mem_nil, or_false] at hr
    rcases hr with rfl | rfl <;> exact ⟨by decide +kernel, fun _ same => by cases same⟩

/-- The scalars of a schema are placed. -/
theorem Origin.scalars_accounted (o : Origin w sys queries placed met) {e : ScalarEntry}
    (he : e ∈ w.schema.scalars) : ∃ d, Accounted placed [] (.scalar e.typeDecl.name d) := by
  obtain ⟨entries, made, places⟩ := o.places
  obtain ⟨r, scalar, hr⟩ := outcome_mapM_each made he
  obtain ⟨d, rfl⟩ := scalarOf_ok scalar
  refine ⟨d, ?_⟩
  have scalars := drawsOf_scalar w queries
  have within := drawsOf_within o.drawn
  unfold placeTypes at places
  obtain ⟨middle, given, places⟩ := outcome_bind_ok places
  have waits : Accounted [] (givenTypes w.schema
      ((queries.flatMap (·.reaches)).filter (·.isScalar) ++ entries)) (.scalar e.typeDecl.name d) := by
    right
    unfold givenTypes
    rw [List.any_append, any_distinctReached (List.mem_append_right _ hr), Bool.true_or]
  have start : Complete (drawsOf w queries) ((objectTypes w.schema).map (·.name))
      (givenTypes w.schema ((queries.flatMap (·.reaches)).filter (·.isScalar) ++ entries)) [] :=
    complete_given _
  have known := placeAll_accounted scalars within start given waits
  obtain ⟨⟨more, rfl⟩, _⟩ :=
    foldlM_complete scalars within (placeAll_complete scalars within start given) places
  exact known.append

/-- A type system obeys the rules of the request language exactly if it is that of a usable schema. -/
theorem Origin.isSound_iff_isUsable (o : Origin w sys queries placed met)
    (orderly : Orderly w.schema.types) : sys.isSound = true ↔ w.IsUsable := by
  rw [o.isSound_iff]
  constructor
  · intro sound
    refine (isUsable_iff o.drawn fun t ht => ?_).2 ⟨?_, fun t ht ds made => ?_, fun e he => ?_⟩
    · obtain ⟨ds, _, made⟩ := o.objectPlaced orderly ht
      exact ⟨ds, made⟩
    · exact (sound _ o.rootPlaced).2 rfl
    · obtain ⟨ds', member, made'⟩ := o.objectPlaced orderly ht
      obtain rfl : ds = ds' := Except.ok.inj (made.symm.trans made')
      exact (sound _ member).2 rfl
    · obtain ⟨d, known⟩ := o.scalars_accounted he
      obtain ⟨e', he', same⟩ := known.placed
      rw [← show e'.1.name = e.typeDecl.name from Reached.name_of_same same]
      exact (sound e' he').1
  · intro usable e he
    have placeable := o.placeable usable e he
    refine ⟨placeable.1, fun entity => ?_⟩
    obtain ⟨scalar, _⟩ | sound := areSound_of_placeable o.drawn usable placeable
      (o.complete.consistent.drawn e he)
    · rw [entity] at scalar
      cases scalar
    · exact sound

end

theorem offers_withSchema {w : World} {f : Schema → Schema}
    (types : (f w.schema).types = w.schema.types)
    (scalars : (f w.schema).scalars = w.schema.scalars) {host : HostType} {shape : ArgShape} :
    Offers (w.withSchema f) host shape ↔ Offers w host shape := by
  have same (host : HostType) : (w.withSchema f).schema.typeOf host = w.schema.typeOf host :=
    Schema.typeOf_congr types scalars host
  constructor
  · rintro ⟨type, args⟩
    simp only [same, Schema.types_withSchema] at type args
    exact ⟨type, args⟩
  · rintro ⟨type, args⟩
    constructor <;> simp only [same, Schema.types_withSchema]
    · exact type
    · exact args

theorem isUsable_withSchema {w : World} {f : Schema → Schema}
    (types : (f w.schema).types = w.schema.types)
    (queries : (f w.schema).queries = w.schema.queries)
    (scalars : (f w.schema).scalars = w.schema.scalars) :
    (w.withSchema f).IsUsable ↔ w.IsUsable := by
  have offers (host : HostType) (shape : ArgShape) :
      Offers (w.withSchema f) host shape ↔ Offers w host shape :=
    offers_withSchema types scalars
  have objects : objectTypes (w.withSchema f).schema = objectTypes w.schema := by
    unfold objectTypes
    exact congrArg (List.filter _) types
  have asked : (w.withSchema f).schema.queries = w.schema.queries := queries
  have carried : (w.withSchema f).schema.scalars = w.schema.scalars := scalars
  constructor
  · rintro ⟨h₁, h₂, h₃, h₄, h₅⟩
    simp only [offers, objects, asked, carried] at h₁ h₂ h₃ h₄ h₅
    exact ⟨h₁, h₂, h₃, h₄, h₅⟩
  · rintro ⟨h₁, h₂, h₃, h₄, h₅⟩
    constructor <;> simp only [offers, objects, asked, carried] <;> assumption

end Interface

/-! ## Complete schemas -/

namespace Schema

/-- Completing a schema offers a type system that is sound exactly if the schema is usable. -/
theorem complete_isSound_iff {u w : World} (reached : u.IsReached)
    (done : runOn complete u = (.ok (), w)) :
    ∃ sys, w.schema.system = some sys ∧ (sys.isSound = true ↔ w.IsUsable) := by
  obtain ⟨_, x, settled, rfl⟩ := complete_ok done
  have orderly : Orderly x.schema.types :=
    Settles.orderly (keeps_run keeps_settle settled) reached.orderly
  unfold settle at settled
  rw [runOn_bind_ok (runOn_schema u)] at settled
  split at settled
  · cases settled
  obtain ⟨_, _, _, settled⟩ := bind_eq_ok settled
  obtain ⟨_, _, _, settled⟩ := bind_eq_ok settled
  obtain ⟨_, _, _, settled⟩ := bind_eq_ok settled
  obtain ⟨_, v, _, settled⟩ := bind_eq_ok settled
  obtain ⟨_, sys, drawn, ⟨hosts, rfl⟩, rfl⟩ := setUpInterface_ok settled
  obtain ⟨queries, placed, met, origin⟩ := ofSchema_ok drawn
  refine ⟨sys, rfl, (origin.isSound_iff_isUsable orderly).trans ?_⟩
  exact ((isUsable_withSchema rfl rfl rfl).trans
    ((isUsable_withSchema rfl rfl rfl).trans (isUsable_withSchema rfl rfl rfl))).symm

end Schema

namespace Document

/-- The fault of a document that cannot be checked. -/
def uncheckable : Fault := .wrongType "The schema breaks the rules of the language"

theorem readValid_eq {w : World} {sys : TypeSystem} (system : w.schema.system = some sys)
    {source : String} {d : Document} (parsed : read source = .ok d) :
    readValid w source = if sys.isSound then
      (if d.isValid sys then .ok d else .error .invalidDocument) else .error uncheckable := by
  unfold readValid
  rw [parsed, system]
  show (if !sys.isSound then _ else _) = _
  cases sound : sys.isSound <;> rfl

end Document

namespace Session

/-- Completing a schema makes documents checkable exactly if a query and a field of every object are
left once reserved names are left out, and no argument of such a query or field, no type that it
mentions and no scalar has a reserved name. If so, whatever happens afterwards, a document that can
be read fails at most for what it asks; if not, every document fails before anything is done. -/
theorem completed_checkable {u w : World} (reached : u.IsReached)
    (done : runOn Schema.complete u = (.ok (), w)) :
    ∃ sys, w.schema.system = some sys ∧ (sys.isSound = true ↔ w.IsUsable)
      ∧ ∀ contexts es source d, Document.read source = .ok d →
        let s := (Session.mk w contexts).after es
        (w.IsUsable → Document.readValid s.world source
            = if d.isValid sys then .ok d else .error .invalidDocument)
          ∧ (¬ w.IsUsable → ∀ context vars used,
            runOn (s.world.executeDocument context source vars) used
              = (.error Document.uncheckable, used)) := by
  obtain ⟨sys, system, sound⟩ := Schema.complete_isSound_iff reached done
  refine ⟨sys, system, sound, fun contexts es source d parsed => ?_⟩
  intro s
  obtain ⟨_, x, _, closed⟩ := Schema.complete_ok done
  have completed : w.schema.completed = true := by
    rw [closed]
    rfl
  have same : SameSchema w s.world := Session.sameSchema_after es completed
  have offered : s.world.schema.system = some sys := by
    obtain ⟨_, _, same⟩ := same
    rw [same]
    exact system
  have checked := Document.readValid_eq offered parsed
  constructor
  · intro usable
    rwa [if_pos (sound.2 usable)] at checked
  · intro unusable context vars used
    rw [if_neg (fun is => unusable (sound.1 is))] at checked
    unfold World.executeDocument Requesting.ensureCompleted
    rw [same.completed, completed]
    show runOn (_ >>= _) used = _
    rw [checked]
    rfl

/-- A query with an argument that has a reserved name. -/
def hiddenArgument : List Event :=
  [.addQueryWithArgs .unmodified "q" (.builtin .int) (.defaults [(.str "__x", .int 1)])
    (.function 1 ["a"] none (.fn ["c"] none (.lit (.int 1))) []) ""]

/-- A schema with such a query can be completed but is not usable: whatever happens afterwards, a
document that asks for the query is refused without being checked. -/
theorem hiddenArgument_unusable :
    let u := ((start default ⟨0, "context"⟩ 2).after hiddenArgument).world
    ∃ w, runOn Schema.complete u = (.ok (), w) ∧ ¬ w.IsUsable
      ∧ ∀ es context vars used, runOn (((Session.mk w 0).after es).world.executeDocument context
        "{ q }" vars) used = (.error Document.uncheckable, used) := by
  intro u
  have succeeds : (runOn Schema.complete u).1.isOk = true := by decide +kernel
  have unsound : (runOn Schema.complete u).2.schema.system.map (·.isSound) = some false := by
    decide +kernel
  have readable : (Document.read "{ q }").isOk = true := by decide +kernel
  cases parsed : Document.read "{ q }" with
  | error =>
    rw [parsed] at readable
    cases readable
  | ok d =>
    cases done : runOn Schema.complete u with
    | mk r w =>
      rw [done] at succeeds unsound
      cases r with
      | error => cases succeeds
      | ok _ =>
        obtain ⟨sys, system, sound, checked⟩ := completed_checkable ⟨default, _, _, _, rfl⟩ done
        have unusable : ¬ w.IsUsable := by
          rw [← sound]
          simpa [system] using unsound
        exact ⟨w, rfl, unusable, fun es context vars used =>
          (checked 0 es _ d parsed).2 unusable context vars used⟩

/-- The kind of fault of executing a document, if it is well formed. -/
def failureOf (s : Session) (source : String) : Option FaultKind :=
  match Document.read source,
    (runOn (s.world.executeDocument .none source []) ⟨0, s.world.trail⟩).1 with
  | .ok _, .error f => some f.kind
  | _, _ => none

/-- The type system of a complete schema can break the rules of the request language, and a document
that can be read fails for this alone. -/
theorem complete_yet_uncheckable :
    let s := (start default ⟨0, "context"⟩ 2).after (hiddenArgument ++ [.complete])
    s.world.schema.completed = true ∧ s.world.schema.system.map (·.isSound) = some false
      ∧ s.failureOf "{ q }" = some .wrongType := by
  decide +kernel

end Session

end EntityGraph
