import EntityGraph.Proofs.Interface.Placing
import EntityGraph.Proofs.Schema.Reached
import Mathlib.Data.List.Nodup

/-!
# The type system mirrors the schema

The type system of a schema is made of names: an object is found by its name, and a field leads to
the object whose name its type mentions. The schema itself goes by host types and places. This module
shows that both ways lead to the same: the object found under the name of an entity type has exactly
the fields of that type, with the arguments of their shapes, and its fields lead to the objects of
the types that describe their values.

What makes this true is that no two placed types have one name. Types of an application have
different names anyway; that a scalar and an object may not share one is checked last, and every
scalar that a field mentions is placed by then.
-/

namespace EntityGraph.Interface

/-! ## Drawing -/

theorem scalarOf_ok {t : TypeDecl} {r : Reached} (h : scalarOf t = .ok r) :
    ∃ d, r = .scalar t.name d := by
  unfold scalarOf at h
  split at h
  · cases h
    exact ⟨_, rfl⟩
  · obtain ⟨_, _, h⟩ := outcome_bind_ok h
    cases h
    exact ⟨_, rfl⟩

theorem reachedBy_ok {s : Schema} {t : TypeDecl} {r : Reached} (h : reachedBy s t = .ok r) :
    (t.isScalar = true ∧ ∃ d, r = .scalar t.name d)
      ∨ t.isScalar = false ∧ (∃ u ∈ objectTypes s, u.name = t.name) ∧ r = .object t.name := by
  unfold reachedBy at h
  split at h
  · next scalar => exact .inl ⟨scalar, scalarOf_ok h⟩
  · next entity =>
    split at h
    · next known =>
      cases h
      exact .inr ⟨by simpa using entity, by simpa using known, rfl⟩
    · cases h

theorem drawArgument_ok {s : Schema} {name : Value} {host : HostType} {a : ArgumentDef}
    {r : Reached} (h : drawArgument s name host = .ok (a, r)) :
    name.text? = some a.name ∧ (∃ d, r = .scalar (s.typeOf host).name d)
      ∧ a.type = .named r.name := by
  unfold drawArgument at h
  obtain ⟨x, scalar, h⟩ := outcome_bind_ok h
  obtain ⟨d, rfl⟩ := scalarOf_ok scalar
  split at h
  · next text =>
    cases h
    exact ⟨text, ⟨d, rfl⟩, rfl⟩
  · cases h

/-- What a field is drawn of: the type that is reached, and the types of its arguments. -/
theorem drawField_of {w : World} {name description : String} {host : HostType} {isList : Bool}
    {shape : ArgShape} {d : Draw} (h : drawField w name description host isList shape = .ok d) :
    ∃ r types args, reachedBy w.schema (w.schema.typeOf host) = .ok r
      ∧ shape.types w = .ok types
      ∧ types.mapM (fun p => drawArgument w.schema p.1 p.2) = .ok args
      ∧ d.field.name = name ∧ d.field.type.base = r.name ∧ d.field.args = args.map (·.1)
      ∧ d.reaches = r :: args.map (·.2) := by
  unfold drawField at h
  obtain ⟨r, target, h⟩ := outcome_bind_ok h
  obtain ⟨types, shown, h⟩ := outcome_bind_ok h
  obtain ⟨args, made, h⟩ := outcome_bind_ok h
  obtain ⟨_, _, h⟩ := outcome_bind_ok h
  cases h
  exact ⟨r, types, args, target, shown, made, rfl, by cases isList <;> rfl, rfl, rfl⟩

/-- What a drawn field tells of the field that it was drawn of. -/
structure Drawn (w : World) (host : HostType) (isList : Bool) (shape : ArgShape) (d : Draw) :
    Prop where
  /-- The type that its values have, at the core of its own. -/
  target : ∃ r, reachedBy w.schema (w.schema.typeOf host) = .ok r ∧ r ∈ d.reaches
    ∧ d.field.type.base = r.name
  /-- Its arguments are those of the shape. -/
  args : ∃ types, shape.types w = .ok types
    ∧ ∀ a ∈ d.field.args, ∃ p ∈ types, p.1.text? = some a.name
  /-- It reaches nothing else but scalars. -/
  reaches : ∀ x ∈ d.reaches, x.isScalar = true
    ∨ reachedBy w.schema (w.schema.typeOf host) = .ok x

theorem drawField_ok {w : World} {name description : String} {host : HostType} {isList : Bool}
    {shape : ArgShape} {d : Draw}
    (h : drawField w name description host isList shape = .ok d) :
    d.field.name = name ∧ Drawn w host isList shape d := by
  obtain ⟨r, types, args, target, shown, made, named, base, offered, reaches⟩ := drawField_of h
  refine ⟨named, ⟨r, target, by simp [reaches], base⟩, ⟨types, shown, ?_⟩, ?_⟩
  · intro a ha
    rw [offered] at ha
    obtain ⟨p, hp, rfl⟩ := List.mem_map.1 ha
    obtain ⟨q, hq, drawn⟩ := outcome_mapM_mem made hp
    exact ⟨q, hq, (drawArgument_ok drawn).1⟩
  · intro x hx
    rw [reaches] at hx
    rcases List.mem_cons.1 hx with rfl | hx
    · exact .inr target
    · obtain ⟨p, hp, rfl⟩ := List.mem_map.1 hx
      obtain ⟨q, _, drawn⟩ := outcome_mapM_mem made hp
      obtain ⟨_, ⟨_, scalar⟩, _⟩ := drawArgument_ok drawn
      exact .inl (by rw [scalar]; rfl)

theorem drawFields_ok {w : World} {t : TypeDecl} {ds : List Draw}
    (h : drawFields w t = .ok ds) :
    (t.fields.filter (!isReserved ·.name)).mapM (fun f =>
      drawField w f.name f.description f.host f.isList f.shape) = .ok ds := by
  unfold drawFields at h
  obtain ⟨drawn, made, h⟩ := outcome_bind_ok h
  obtain ⟨_, _, h⟩ := outcome_bind_ok h
  cases h
  exact outcome_mapError_ok made

theorem drawsOf_scalar (w : World) (queries : List Draw) (r : Reached)
    (h : r.isScalar = true) : drawsOf w queries r = .ok [] := by
  cases r with
  | scalar n d => rfl
  | object n => cases h
  | root => cases h

/-- Whatever the objects and the root type reach is a scalar or one of the objects. -/
theorem drawsOf_within {w : World} {queries : List Draw} (drawn : drawQueries w = .ok queries) :
    Within (drawsOf w queries) ((objectTypes w.schema).map (·.name)) := by
  have field {name description : String} {host : HostType} {isList : Bool} {shape : ArgShape}
      {d : Draw} (h : drawField w name description host isList shape = .ok d) :
      ∀ x ∈ d.reaches, x.isScalar = true
        ∨ ∃ n ∈ (objectTypes w.schema).map (·.name), x = .object n := by
    intro x hx
    rcases (drawField_ok h).2.reaches x hx with scalar | target
    · exact .inl scalar
    · obtain ⟨_, d, rfl⟩ | ⟨_, ⟨u, hu, same⟩, rfl⟩ := reachedBy_ok target
      · exact .inl rfl
      · exact .inr ⟨_, List.mem_map.2 ⟨u, hu, same⟩, rfl⟩
  intro r ds h x hx
  obtain ⟨d, hd, reaches⟩ := List.mem_flatMap.1 hx
  cases r with
  | scalar n e =>
    cases h
    cases hd
  | object n =>
    obtain ⟨f, _, made⟩ := outcome_mapM_mem (drawFields_ok h) hd
    exact field made x reaches
  | root =>
    obtain ⟨_, _, h⟩ := outcome_bind_ok h
    cases h
    obtain ⟨q, _, made⟩ := outcome_mapM_mem drawn hd
    exact field made x reaches

/-! ## Finding what was placed -/

theorem checkDistinct_ok {ns : List String} (h : checkDistinct ns = .ok ()) : ns.Nodup := by
  induction ns with
  | nil => exact List.nodup_nil
  | cons n ns ih =>
    unfold checkDistinct at h
    split at h
    · cases h
    · next fresh => exact List.nodup_cons.2 ⟨by simpa using fresh, ih h⟩

/-- All that a type system comes of. -/
structure Origin (w : World) (sys : TypeSystem) (queries : List Draw) (placed : Placed)
    (met : List Reached) : Prop where
  drawn : drawQueries w = .ok queries
  complete : Complete (drawsOf w queries) ((objectTypes w.schema).map (·.name)) [] placed
  root : Accounted placed [] .root
  text : Accounted placed [] (.scalar "String" "")
  distinct : (placed.map (·.1.name)).Nodup
  types : sys.types = placed.map fun (r, drawn) => definition w.schema met r drawn
  places : ∃ entries, w.schema.scalars.mapM (fun e => scalarOf e.typeDecl) = .ok entries
    ∧ placeTypes w queries ((queries.flatMap (·.reaches)).filter (·.isScalar) ++ entries)
      = .ok placed

/-- Before anything is placed, every object waits. -/
theorem complete_given {w : World} {queries : List Draw} (first : List Reached) :
    Complete (drawsOf w queries) ((objectTypes w.schema).map (·.name))
      (givenTypes w.schema first) [] := by
  refine ⟨⟨by simp, by simp⟩, fun n hn => .inr ?_⟩
  obtain ⟨t, ht, rfl⟩ := List.mem_map.1 hn
  unfold givenTypes
  rw [List.any_append, Bool.or_eq_true]
  exact .inr (List.any_eq_true.2 ⟨_, List.mem_map_of_mem ht, Reached.same_refl _⟩)

theorem ofSchema_ok {w : World} {sys : TypeSystem} (h : ofSchema w = .ok sys) :
    ∃ queries placed met, Origin w sys queries placed met := by
  unfold ofSchema at h
  obtain ⟨_, _, h⟩ := outcome_bind_ok h
  obtain ⟨queries, drawn, h⟩ := outcome_bind_ok h
  obtain ⟨entries, made, h⟩ := outcome_bind_ok h
  obtain ⟨placed, places, h⟩ := outcome_bind_ok h
  obtain ⟨_, distinct, h⟩ := outcome_bind_ok h
  cases h
  have all := places
  unfold placeTypes at places
  obtain ⟨first, given, places⟩ := outcome_bind_ok places
  have scalars := drawsOf_scalar w queries
  have within := drawsOf_within drawn
  have complete := placeAll_complete scalars within (complete_given _) given
  obtain ⟨_, complete, known⟩ := foldlM_complete scalars within complete places
  exact ⟨queries, placed, _, drawn, complete, known _ (by simp), known _ (by simp [languageScalars]),
    checkDistinct_ok distinct, rfl, entries, made, all⟩

/-- A placed type is found under its name. -/
theorem Origin.find? {w : World} {sys : TypeSystem} {queries : List Draw} {placed : Placed}
    {met : List Reached} (o : Origin w sys queries placed met) {r : Reached} {drawn : List Draw}
    (h : (r, drawn) ∈ placed) :
    sys.find? r.name = some (definition w.schema met r drawn) := by
  unfold TypeSystem.find?
  rw [List.find?_append, o.types]
  have distinct :
      ((placed.map fun (r, drawn) => definition w.schema met r drawn).map (·.name)).Nodup := by
    rw [List.map_map]
    exact o.distinct
  have found := find?_of_nodup distinct
    (List.mem_map_of_mem (f := fun (r, drawn) => definition w.schema met r drawn) h)
  rw [show (definition w.schema met r drawn).name = r.name from rfl] at found
  rw [found]
  rfl

/-! ## What objects and fields stand for -/

/-- The object that an entity type became. -/
structure Stands (w : World) (sys : TypeSystem) (t : TypeDecl) (d : TypeDef) : Prop where
  declared : t ∈ objectTypes w.schema
  found : sys.find? t.name = some d
  name : d.name = t.name
  apart : t.name ≠ rootName
  fields : ∃ ds, drawFields w t = .ok ds ∧ d.body = .object (ds.map (·.field))

/-- What the values of a field are, and which arguments it takes, as a type system pictures them. -/
structure Pictures (w : World) (sys : TypeSystem) (host : HostType) (shape : ArgShape)
    (f : FieldDef) : Prop where
  scalar : (w.schema.typeOf host).isScalar = true →
    (sys.core? f.type).any (·.isObject) = false
  entity : (w.schema.typeOf host).isScalar = false →
    ∃ d, Stands w sys (w.schema.typeOf host) d ∧ sys.core? f.type = some d
  args : ∃ types, shape.types w = .ok types
    ∧ ∀ a ∈ f.args, ∃ p ∈ types, p.1.text? = some a.name

section

variable {w : World} {sys : TypeSystem} {queries : List Draw} {placed : Placed}
  {met : List Reached}

theorem Origin.placedAs (o : Origin w sys queries placed met) {r : Reached}
    (h : Accounted placed [] r) :
    ∃ r' drawn, (r', drawn) ∈ placed ∧ r'.same r = true ∧ drawsOf w queries r' = .ok drawn := by
  obtain ⟨⟨r', drawn⟩, member, same⟩ := h.placed
  exact ⟨r', drawn, member, same, o.complete.consistent.drawn _ member⟩

theorem Origin.rootPlaced (o : Origin w sys queries placed met) : (.root, queries) ∈ placed := by
  obtain ⟨r, drawn, member, same, made⟩ := o.placedAs o.root
  cases r with
  | scalar n d => cases same
  | object n => cases same
  | root =>
    obtain ⟨_, _, h⟩ := outcome_bind_ok made
    cases h
    exact member

theorem Origin.root_stands (o : Origin w sys queries placed met) :
    ∃ d, sys.find? rootName = some d ∧ d.name = rootName
      ∧ d.body = .object (queries.map (·.field)) :=
  ⟨_, o.find? o.rootPlaced, rfl, rfl⟩

theorem Origin.objectPlaced (o : Origin w sys queries placed met)
    (orderly : Orderly w.schema.types) {t : TypeDecl} (ht : t ∈ objectTypes w.schema) :
    ∃ drawn, (.object t.name, drawn) ∈ placed ∧ drawFields w t = .ok drawn := by
  obtain ⟨r, drawn, member, same, made⟩ :=
    o.placedAs (o.complete.all t.name (List.mem_map_of_mem ht))
  cases r with
  | scalar n d => cases same
  | root => cases same
  | object n =>
    obtain rfl : n = t.name := by simpa [Reached.same] using same
    have names : ((objectTypes w.schema).map (·.name)).Nodup :=
      orderly.names.sublist (List.filter_sublist.map _)
    simp only [drawsOf] at made
    rw [find?_of_nodup names ht] at made
    exact ⟨drawn, member, made⟩

theorem Origin.stands (o : Origin w sys queries placed met) (orderly : Orderly w.schema.types)
    {t : TypeDecl} (ht : t ∈ objectTypes w.schema) : ∃ d, Stands w sys t d := by
  obtain ⟨drawn, member, made⟩ := o.objectPlaced orderly ht
  refine ⟨_, ht, o.find? member, rfl, fun root => ?_, drawn, made, rfl⟩
  have one := List.inj_on_of_nodup_map o.distinct member o.rootPlaced root
  cases one

theorem Origin.scalar_found (o : Origin w sys queries placed met) {n d : String}
    (h : Accounted placed [] (.scalar n d)) :
    ∃ def', sys.find? n = some def' ∧ def'.isObject = false := by
  obtain ⟨r, drawn, member, same, _⟩ := o.placedAs h
  cases r with
  | scalar n' d' =>
    obtain rfl : n' = n := by simpa [Reached.same] using same
    exact ⟨_, o.find? member, rfl⟩
  | object n' => cases same
  | root => cases same

theorem Origin.pictures (o : Origin w sys queries placed met) (orderly : Orderly w.schema.types)
    {r : Reached} {drawn : List Draw} (member : (r, drawn) ∈ placed) {d : Draw} (hd : d ∈ drawn)
    {host : HostType} {isList : Bool} {shape : ArgShape} (made : Drawn w host isList shape d) :
    Pictures w sys host shape d.field := by
  obtain ⟨x, target, reached, base⟩ := made.target
  have known := o.complete.consistent.closed _ member x (List.mem_flatMap.2 ⟨d, hd, reached⟩)
  refine ⟨fun scalar => ?_, fun entity => ?_, made.args⟩
  · obtain ⟨_, e, rfl⟩ | ⟨entity, _⟩ := reachedBy_ok target
    · obtain ⟨def', found, leaf⟩ := o.scalar_found known
      unfold TypeSystem.core?
      rw [base, show (Reached.scalar _ e).name = (w.schema.typeOf host).name from rfl, found]
      simpa using leaf
    · rw [scalar] at entity
      cases entity
  · obtain ⟨scalar, _⟩ | ⟨_, ⟨u, hu, same⟩, rfl⟩ := reachedBy_ok target
    · rw [scalar] at entity
      cases entity
    · have one : u = w.schema.typeOf host :=
        List.inj_on_of_nodup_map orderly.names (List.mem_of_mem_filter hu) (typeOf_mem entity) same
      subst one
      obtain ⟨def', stands⟩ := o.stands orderly hu
      refine ⟨def', stands, ?_⟩
      unfold TypeSystem.core?
      rw [base]
      exact stands.found

/-! ## Looking fields up -/

theorem find?_filter_name {α : Type} {xs : List α} {name : α → String} {n : String} {x : α}
    (h : (xs.filter fun x => !isReserved (name x)).find? (name · == n) = some x) :
    xs.find? (name · == n) = some x := by
  rw [List.find?_filter] at h
  have is := List.find?_some h
  simp only [decide_eq_true_eq, beq_iff_eq] at is
  rw [← h]
  congr 1
  funext y
  by_cases same : name y = n
  · simpa [same, ← is.2] using is.1
  · simp [same]

theorem find?_fields {ds : List Draw} {n : String} {f : FieldDef}
    (h : (ds.map (·.field)).find? (·.name == n) = some f) :
    ∃ d, ds.find? (·.field.name == n) = some d ∧ d.field = f := by
  rw [List.find?_map] at h
  exact Option.map_eq_some_iff.1 h

theorem isObject_of_body {d : TypeDef} {fs : List FieldDef} (h : d.body = .object fs) :
    d.isObject = true ∧ d.fields = fs := by
  unfold TypeDef.isObject TypeDef.fields
  rw [h]
  exact ⟨rfl, rfl⟩

/-- A field that a selection means beneath an entity type's object is the field of that type, or
tells the type's name. -/
theorem Origin.field (o : Origin w sys queries placed met) (orderly : Orderly w.schema.types)
    {t : TypeDecl} {d : TypeDef} (stands : Stands w sys t d) {n : String} {f : FieldDef}
    (h : d.fieldNamed? n = some f) :
    (n = typeNameField.name ∧ f = typeNameField)
      ∨ ∃ g, t.findField? n = some g ∧ Pictures w sys g.host g.shape f := by
  obtain ⟨ds, drawn, body⟩ := stands.fields
  obtain ⟨isObject, fields⟩ := isObject_of_body body
  unfold TypeDef.fieldNamed? at h
  rw [if_pos isObject, if_neg (by simpa [stands.name] using stands.apart), fields] at h
  by_cases first : typeNameField.name = n
  · rw [List.cons_append, List.find?_cons_of_pos (by simpa using first)] at h
    cases h
    exact .inl ⟨first.symm, rfl⟩
  · right
    rw [List.cons_append, List.find?_cons_of_neg (by simpa using first)] at h
    obtain ⟨x, found, rfl⟩ := find?_fields h
    obtain ⟨g, source, made⟩ := outcome_mapM_find? (drawFields_ok drawn) (p := fun g => g.name == n)
      (fun g y made => by rw [(drawField_ok made).1]) found
    refine ⟨g, find?_filter_name source, ?_⟩
    obtain ⟨ds', member, same⟩ := o.objectPlaced orderly stands.declared
    obtain rfl : ds = ds' := Except.ok.inj (drawn.symm.trans same)
    exact o.pictures orderly member (List.mem_of_find?_eq_some found) (drawField_ok made).2

/-- A field of the root type is a query. -/
theorem Origin.query (o : Origin w sys queries placed met) (orderly : Orderly w.schema.types)
    {n : String} {f : FieldDef} (h : (queries.map (·.field)).find? (·.name == n) = some f) :
    ∃ q, w.schema.findQuery? n = some q ∧ Pictures w sys q.host q.shape f := by
  obtain ⟨x, found, rfl⟩ := find?_fields h
  obtain ⟨q, source, made⟩ := outcome_mapM_find? o.drawn (p := fun q => q.name == n)
    (fun q y made => by rw [(drawField_ok made).1]) found
  refine ⟨q, find?_filter_name source, ?_⟩
  exact o.pictures orderly o.rootPlaced (List.mem_of_find?_eq_some found) (drawField_ok made).2

end

end EntityGraph.Interface
