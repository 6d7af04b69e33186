import EntityGraph.Proofs.Schema.Reached
import Mathlib.Data.List.Nodup

/-!
# What completing settles

In a complete schema every entity type has a field with its name and a record class that knows its
fields, and the type system of requests was drawn from the very declarations that are there. All of
this is established by the stages of completing, each of which is followed here along a success. It
then holds for good, because a complete schema refuses every declaration.
-/

namespace EntityGraph

/-- Whether a field gives the name of its type, after the query. -/
structure FieldDecl.NamesType (typeName : String) (f : FieldDecl) : Prop where
  name : f.name = Schema.typeNameName
  host : f.host = .builtin .str
  shape : f.shape = .none
  source : ∃ number, f.source = .post (.function number [] none (.lit (.str typeName)) [])

namespace Schema

open Declaring

/-! ## Fields with the names of types -/

theorem getType_found {host : HostType} {w u : World} {i : Nat}
    (h : runOn (getType host) w = (.ok i, u)) : u = w ∧ w.schema.findType? host = some i := by
  unfold getType at h
  rw [runOn_bind_ok (runOn_schema w)] at h
  split at h
  · next j found =>
    cases h
    exact ⟨rfl, found⟩
  · cases h

theorem findType?_place {s : Schema} {host : HostType} {i : Nat}
    (found : s.findType? host = some i) : ∃ t, s.types[i]? = some t ∧ t.host = host := by
  obtain ⟨bound, is, _⟩ := List.findIdx?_eq_some_iff_getElem.1 found
  exact ⟨_, List.getElem?_eq_getElem bound, by simpa using is⟩

theorem insertField_ok {i : Nat} {f g : FieldDecl} {w u : World}
    (h : runOn (insertField i f) w = (.ok g, u)) : g = f ∧ u = w.withField i f := by
  obtain ⟨_, h⟩ := ensureOpen_ok h
  rw [runOn_bind_ok (runOn_typeAt i w)] at h
  split at h
  · cases h
  · cases h
    exact ⟨rfl, rfl⟩

/-- Worlds with the same types, up to fields and projections. -/
def SameHeads (w w' : World) : Prop :=
  w'.schema.types.map TypeDecl.head = w.schema.types.map TypeDecl.head

instance : IsPreorder World SameHeads where
  refl _ := rfl
  trans _ _ _ h h' := Eq.trans h' h

theorem sameHeads_field (w : World) (i : Nat) (f : FieldDecl) : SameHeads w (w.withField i f) :=
  map_modify_eq _ _ _ fun _ => rfl

end Schema

/-- Whether the type of a host type has a field with a name. -/
def HasField (w : World) (host : HostType) (name : String) : Prop :=
  ∃ t ∈ w.schema.types, t.host = host ∧ (t.findField? name).isSome

theorem findField?_append (t : TypeDecl) (f : FieldDecl) (name : String)
    (h : (t.findField? name).isSome ∨ f.name = name) :
    (({ t with fields := t.fields ++ [f] } : TypeDecl).findField? name).isSome := by
  unfold TypeDecl.findField? at h ⊢
  rw [List.find?_append, Option.isSome_or]
  rcases h with h | h <;> simp [h]

/-- An element of a list is still there after a change, or its image is. -/
theorem mem_of_modify {α : Type} {xs : List α} {x : α} (i : Nat) (f : α → α) (h : x ∈ xs) :
    x ∈ xs.modify i f ∨ f x ∈ xs.modify i f := by
  obtain ⟨j, at_j⟩ := List.mem_iff_getElem?.1 h
  have image : (xs.modify i f)[j]? = some (if i = j then f x else x) := by
    rw [List.getElem?_modify, at_j]
    rfl
  by_cases here : i = j
  · rw [if_pos here] at image
    exact .inr (List.mem_of_getElem? image)
  · rw [if_neg here] at image
    exact .inl (List.mem_of_getElem? image)

theorem Addition.hasField {w w' : World} {host : HostType} {name : String}
    (step : Addition w w') (h : HasField w host name) : HasField w' host name := by
  cases step with
  | number n => exact h
  | type t =>
    obtain ⟨t, ht, rest⟩ := h
    exact ⟨t, List.mem_append_left _ ht, rest⟩
  | field i f =>
    obtain ⟨t, ht, same, named⟩ := h
    obtain ht | ht := mem_of_modify i (fun t => { t with fields := t.fields ++ [f] }) ht
    · exact ⟨t, ht, same, named⟩
    · exact ⟨_, ht, same, findField?_append t f _ (.inl named)⟩
  | query q => exact h
  | adHoc host => exact h

theorem Adds.hasField {w w' : World} {host : HostType} {name : String} (steps : Adds w w')
    (h : HasField w host name) : HasField w' host name := by
  induction steps with
  | refl => exact h
  | tail _ step ih => exact step.hasField ih

theorem Arranges.hasField {w w' : World} {host : HostType} {name : String}
    (steps : Arranges w w') (h : HasField w host name) : HasField w' host name := by
  induction steps with
  | refl => exact h
  | tail _ step ih =>
    cases step with
    | adHoc host => exact ih
    | projection i p =>
      obtain ⟨t, ht, same, named⟩ := ih
      obtain ht | ht := mem_of_modify i (fun t => { t with projection := some p }) ht
      · exact ⟨t, ht, same, named⟩
      · exact ⟨_, ht, same, named⟩
    | system sys => exact ih

/-- A type has the field that it was given. -/
theorem hasField_withField {w : World} {i : Nat} {t : TypeDecl} {f : FieldDecl}
    (place : w.schema.types[i]? = some t) : HasField (w.withField i f) t.host f.name := by
  refine ⟨{ t with fields := t.fields ++ [f] }, ?_, rfl, findField?_append t f _ (.inr rfl)⟩
  refine List.mem_of_getElem? (i := i) ?_
  show (w.schema.types.modify i _)[i]? = _
  rw [List.getElem?_modify, place]
  simp

namespace Schema

/-- A type that is an entity and has no field with its name gets one, and any other type stays as it
is. -/
theorem addTypeName_cases {t : TypeDecl} {w u : World}
    (h : runOn (addTypeName t) w = (.ok (), u)) :
    (t.isScalar = true ∨ (t.findField? typeNameName).isSome) ∧ u = w
      ∨ ∃ i g, w.schema.findType? t.host = some i ∧ g.NamesType t.name
        ∧ u = (w.numbered (w.schema.supply + 1)).withField i g := by
  unfold addTypeName at h
  split at h
  · rw [runOn_bind_ok (runOn_schema w), runOn_bind_ok (runOn_update _ w)] at h
    obtain ⟨f, v, added, rest⟩ := bind_eq_ok h
    cases rest
    obtain ⟨i, x, got, inserted⟩ := bind_eq_ok added
    obtain ⟨rfl, found⟩ := getType_found got
    exact .inr ⟨i, _, found, ⟨rfl, rfl, rfl, _, rfl⟩, (insertField_ok inserted).2⟩
  · next other =>
    cases h
    refine .inl ⟨?_, rfl⟩
    simpa [Option.isSome_iff_ne_none, or_iff_not_imp_left] using other

theorem addTypeName_ok {t : TypeDecl} {w u : World} (h : runOn (addTypeName t) w = (.ok (), u))
    (entity : t.isScalar = false)
    (before : (t.findField? typeNameName).isSome → HasField w t.host typeNameName) :
    HasField u t.host typeNameName := by
  rcases addTypeName_cases h with ⟨scalar | named, rfl⟩ | ⟨i, g, found, names, rfl⟩
  · rw [entity] at scalar
    cases scalar
  · exact before named
  · obtain ⟨t', place, same⟩ := findType?_place found
    rw [← same, ← names.name]
    exact hasField_withField place

theorem forM_cons_ok {α σ : Type} {f : α → ExceptT Fault (StateM σ) PUnit} {a : α} {as : List α}
    {s t : σ} (h : runOn ((a :: as).forM f) s = (.ok ⟨⟩, t)) :
    ∃ u, runOn (f a) s = (.ok ⟨⟩, u) ∧ runOn (as.forM f) u = (.ok ⟨⟩, t) := by
  obtain ⟨_, u, first, rest⟩ := bind_eq_ok h
  exact ⟨u, first, rest⟩

theorem addTypeNames_ok {ts : List TypeDecl} {w u : World}
    (h : runOn (ts.forM addTypeName) w = (.ok (), u))
    (before : ∀ t ∈ ts, (t.findField? typeNameName).isSome → HasField w t.host typeNameName) :
    ∀ t ∈ ts, t.isScalar = false → HasField u t.host typeNameName := by
  induction ts generalizing w with
  | nil => exact fun _ ht => absurd ht List.not_mem_nil
  | cons t ts ih =>
    obtain ⟨v, first, rest⟩ := forM_cons_ok h
    have each (t : TypeDecl) : Keeps Adds (addTypeName t) := keeps_addTypeName adds_number adds_field t
    have steps : Adds w v := keeps_run (each t) first
    have later : Adds v u := keeps_run (keeps_forM ts fun t _ => each t) rest
    have after := ih rest fun s hs named => Adds.hasField steps (before s (by simp [hs]) named)
    intro s hs entity
    rcases List.mem_cons.1 hs with rfl | hs
    · exact Adds.hasField later (addTypeName_ok first entity (before s (by simp)))
    · exact after s hs entity

/-- Whether every entity type has a field with its name. -/
def AllNamed (w : World) : Prop :=
  ∀ t ∈ w.schema.types, t.isScalar = false → (t.findField? typeNameName).isSome

/-- Describing declares the types of the description and its queries, and then names every type. -/
theorem addDescription_stages {w u : World} (h : runOn addDescription w = (.ok (), u)) :
    ∃ w₁ w₂ w₃ v, runOn addSchemaType w = (.ok (), w₁) ∧ runOn addEntityType w₁ = (.ok (), w₂)
      ∧ runOn addFieldType w₂ = (.ok (), w₃) ∧ runOn addSchemaQueries w₃ = (.ok (), v)
      ∧ runOn (v.schema.types.forM addTypeName) v = (.ok (), u) := by
  unfold addDescription at h
  obtain ⟨_, w₁, schemas, h⟩ := bind_eq_ok h
  obtain ⟨_, w₂, entities, h⟩ := bind_eq_ok h
  obtain ⟨_, w₃, fields, h⟩ := bind_eq_ok h
  obtain ⟨_, v, queries, h⟩ := bind_eq_ok h
  rw [runOn_bind_ok (runOn_schema v)] at h
  exact ⟨w₁, w₂, w₃, v, schemas, entities, fields, queries, h⟩

theorem addDescription_ok {w u : World} (h : runOn addDescription w = (.ok (), u))
    (orderly : Orderly w.schema.types) : AllNamed u := by
  have ordered : Orderly u.schema.types :=
    Settles.orderly (Adds.settles (keeps_run (keeps_addDescription adds_describing) h)) orderly
  obtain ⟨_, _, _, v, _, _, _, _, h⟩ := addDescription_stages h
  have each (t : TypeDecl) : Keeps SameHeads (addTypeName t) :=
    keeps_addTypeName (fun _ _ => rfl) (fun w i f _ _ _ => sameHeads_field w i f) t
  have heads : SameHeads v u := keeps_run (keeps_forM _ fun t _ => each t) h
  have named := addTypeNames_ok h fun t ht is => ⟨t, ht, rfl, is⟩
  -- The type that was named is the only one of its host type.
  intro t ht entity
  have head : t.head ∈ v.schema.types.map TypeDecl.head := by
    rw [← heads]
    exact List.mem_map_of_mem ht
  obtain ⟨s, hs, same⟩ := List.mem_map.1 head
  have host : s.host = t.host := show s.head.host = t.head.host by rw [same]
  have scalar : s.isScalar = t.isScalar := show s.head.isScalar = t.head.isScalar by rw [same]
  obtain ⟨t', ht', host', is⟩ := named s hs (scalar.trans entity)
  have same_type : t' = t := List.inj_on_of_nodup_map ordered.hosts ht' ht (host'.trans host)
  exact same_type ▸ is

theorem addIntrospection_ok {w u : World} (h : runOn addIntrospection w = (.ok (), u)) :
    ∃ v, runOn addDescription (w.allowing true) = (.ok (), v) ∧ u = v.allowing false := by
  unfold addIntrospection at h
  rw [runOn_bind_ok (show runOn (allowReserved true) w = (.ok (), w.allowing true) from rfl),
    runOn_bind, runOn_tryCatch] at h
  generalize runOn addDescription (w.allowing true) = out at h ⊢
  obtain ⟨r, v⟩ := out
  cases r with
  | error f => cases h
  | ok _ =>
    cases h
    exact ⟨v, rfl, rfl⟩

end Schema

/-! ## Record classes -/

namespace TypeDecl

/-- Whether the projection of a type is a record class that knows its fields. -/
def KnowsFields (t : TypeDecl) : Prop :=
  ∃ members, t.projection = some (.record members (t.postFields.map (·.name)))
    ∧ members.map (·.1) = t.preFields.map (·.name)

/-- Whether a type has the projection that completing gives to types like it. -/
structure IsSettled (t : TypeDecl) : Prop where
  scalar : t.isScalar = true → t.fields = [] ∧ t.projection = some (.host t.host)
  entity : t.isScalar = false → t.KnowsFields

/-- Whether a projection, if there is one, is what completing makes of a type. -/
def IsFit (t : TypeDecl) : Prop := t.projection.isSome → t.IsSettled

end TypeDecl

namespace Schema

open Declaring

theorem mapM_members_ok {fs : List FieldDecl} {w u : World}
    {members : List (String × HostType)}
    (h : runOn (fs.mapM fun f => do return (f.name, memberKind (← describe f.host) f.isList)) w
      = (.ok members, u)) : members.map (·.1) = fs.map (·.name) := by
  induction fs generalizing w members with
  | nil =>
    rw [List.mapM_nil] at h
    cases h
    rfl
  | cons f fs ih =>
    rw [List.mapM_cons] at h
    obtain ⟨m, v, first, h⟩ := bind_eq_ok h
    obtain ⟨ms, v', rest, h⟩ := bind_eq_ok h
    obtain ⟨d, _, _, made⟩ := bind_eq_ok first
    cases made
    cases h
    rw [List.map_cons, List.map_cons, ih rest]

theorem projectionOf_ok {t : TypeDecl} {w u : World} {p : Projection} (valid : t.validate = .ok ())
    (h : runOn (projectionOf t) w = (.ok p, u)) :
    ({ t with projection := some p } : TypeDecl).IsSettled := by
  unfold projectionOf recordClass at h
  cases scalar : t.isScalar with
  | true =>
    rw [if_pos scalar] at h
    cases h
    refine ⟨fun _ => ⟨?_, rfl⟩, nofun⟩
    simpa [TypeDecl.validate, scalar] using valid
  | false =>
    rw [if_neg (by simp [scalar]), if_neg (by simp [scalar])] at h
    obtain ⟨members, v, made, h⟩ := bind_eq_ok h
    cases h
    exact ⟨nofun, fun _ => ⟨members, rfl, mapM_members_ok made⟩⟩

/-- What holds of the types of a world, whatever their projections are, and what their projections
are as far as they are settled. -/
structure Settling (w : World) : Prop where
  named : AllNamed w
  fit : ∀ t ∈ w.schema.types, t.IsFit

theorem settleProjection_ok {i : Nat} {w u : World}
    (h : runOn (settleProjection i) w = (.ok (), u)) :
    (u = w ∧ (w.typeAt i).projection.isSome)
      ∨ ∃ p, u.schema.types
          = w.schema.types.modify i (fun t => { t with projection := some p })
        ∧ ({ w.typeAt i with projection := some p } : TypeDecl).IsSettled := by
  unfold settleProjection at h
  rw [runOn_bind_ok (runOn_typeAt i w)] at h
  by_cases missing : (w.typeAt i).projection.isNone = true
  · right
    rw [if_pos missing] at h
    obtain ⟨_, w', valid, h⟩ := bind_eq_ok h
    rw [runOn_ofOutcome, Prod.mk.injEq] at valid
    rw [← valid.2] at h
    obtain ⟨p, v, made, h⟩ := bind_eq_ok h
    cases h
    have same : SameTypes w v := keeps_run (keeps_projectionOf (fun _ _ => rfl) _) made
    refine ⟨p, ?_, projectionOf_ok valid.1 made⟩
    rw [← same]
  · left
    rw [if_neg missing] at h
    cases h
    exact ⟨rfl, by simpa [Option.isSome_iff_ne_none] using missing⟩

theorem typeAt_of_getElem? {w : World} {i : Nat} {t : TypeDecl}
    (h : w.schema.types[i]? = some t) : w.typeAt i = t := by
  simp [World.typeAt, List.getD, h]

theorem Settling.step {i : Nat} {w u : World} (before : Settling w)
    (h : runOn (settleProjection i) w = (.ok (), u)) : Settling u := by
  obtain ⟨rfl, _⟩ | ⟨p, types, made⟩ := settleProjection_ok h
  · exact before
  · constructor
    · intro t ht entity
      rw [types] at ht
      obtain ht | ⟨s, hs, rfl⟩ := mem_modify ht
      · exact before.named t ht entity
      · exact before.named s (List.mem_of_getElem? hs) entity
    · intro t ht
      rw [types] at ht
      obtain ht | ⟨s, hs, rfl⟩ := mem_modify ht
      · exact before.fit t ht
      · rw [typeAt_of_getElem? hs] at made
        exact fun _ => made

/-- Whether the type at a place has a projection, if there is a type. -/
def HasProjection (w : World) (i : Nat) : Prop :=
  ∀ t, w.schema.types[i]? = some t → t.projection.isSome

theorem HasProjection.step {i j : Nat} {w u : World} (before : HasProjection w j ∨ i = j)
    (h : runOn (settleProjection i) w = (.ok (), u)) : HasProjection u j := by
  obtain ⟨rfl, is⟩ | ⟨p, types, _⟩ := settleProjection_ok h
  · rcases before with before | rfl
    · exact before
    · intro t ht
      rw [← typeAt_of_getElem? ht]
      exact is
  · intro t ht
    rw [types, List.getElem?_modify] at ht
    obtain ⟨s, hs, rfl⟩ := Option.map_eq_some_iff.1 ht
    by_cases here : i = j
    · simp [here]
    · rw [if_neg here]
      rcases before with before | same
      · exact before s hs
      · exact absurd same here

theorem settleProjections_step {is : List Nat} {w u : World}
    (h : runOn (is.forM settleProjection) w = (.ok (), u)) (before : Settling w) :
    Settling u ∧ ∀ j, HasProjection w j ∨ j ∈ is → HasProjection u j := by
  induction is generalizing w with
  | nil =>
    cases h
    exact ⟨before, fun j hj => hj.resolve_right List.not_mem_nil⟩
  | cons i is ih =>
    obtain ⟨v, first, rest⟩ := forM_cons_ok h
    obtain ⟨after, kept⟩ := ih rest (before.step first)
    refine ⟨after, fun j hj => kept j ?_⟩
    rw [List.mem_cons] at hj
    rcases hj with hj | rfl | hj
    · exact .inl (HasProjection.step (.inl hj) first)
    · exact .inl (HasProjection.step (.inr rfl) first)
    · exact .inr hj

theorem Arranges.sameHeads {w w' : World} (h : Arranges w w') : SameHeads w w' := by
  induction h with
  | refl => rfl
  | tail _ step ih =>
    cases step with
    | adHoc host => exact ih
    | projection i p => exact Eq.trans (map_modify_eq _ _ _ fun _ => rfl) ih
    | system sys => exact ih

/-- Once projections are settled, every type has one, which fits it. -/
theorem settleProjections_ok {w u : World} (h : runOn settleProjections w = (.ok (), u))
    (named : AllNamed w) (none : Unprojected w) :
    AllNamed u ∧ ∀ t ∈ u.schema.types, t.IsSettled := by
  have heads : SameHeads w u := Arranges.sameHeads (keeps_run keeps_settleProjections h)
  have count : u.schema.types.length = w.schema.types.length := by
    simpa using congrArg List.length heads
  unfold settleProjections at h
  rw [runOn_bind_ok (runOn_schema w)] at h
  have before : Settling w := ⟨named, fun t ht is => by simp [none t ht] at is⟩
  obtain ⟨after, each⟩ := settleProjections_step h before
  refine ⟨after.named, fun t ht => after.fit t ht ?_⟩
  obtain ⟨j, bound, rfl⟩ := List.getElem_of_mem ht
  refine each j (.inr ?_) _ (List.getElem?_eq_getElem bound)
  rw [List.mem_range, ← count]
  exact bound

/-! ## The type system -/

/-- Worlds that differ in the scalar types that are remembered, at most. -/
def Remembers (w w' : World) : Prop :=
  ∃ hosts, w' = w.withSchema fun s => { s with adHoc := hosts }

instance : IsPreorder World Remembers where
  refl w := ⟨w.schema.adHoc, rfl⟩
  trans := by
    rintro _ _ _ ⟨hosts, rfl⟩ ⟨hosts', rfl⟩
    exact ⟨hosts', rfl⟩

theorem remembers_adHoc (w : World) (host : HostType) : Remembers w (w.withAdHoc host) :=
  ⟨_, rfl⟩

theorem setUpInterface_ok {w u : World} (h : runOn setUpInterface w = (.ok (), u)) :
    ∃ v sys, Interface.ofSchema w = .ok sys ∧ Remembers w v ∧ u = v.offering sys := by
  unfold setUpInterface at h
  rw [runOn_bind_ok (runOn_get w)] at h
  obtain ⟨sys, w₁, drawn, h⟩ := bind_eq_ok h
  rw [runOn_ofOutcome, Prod.mk.injEq] at drawn
  rw [← drawn.2, runOn_bind_ok (runOn_schema w)] at h
  obtain ⟨_, w₂, queries, h⟩ := bind_eq_ok h
  obtain ⟨_, w₃, fields, h⟩ := bind_eq_ok h
  cases h
  have first : Remembers w w₂ := keeps_run (keeps_describeQueries remembers_adHoc _) queries
  have second : Remembers w₂ w₃ := keeps_run (keeps_describeFields remembers_adHoc _) fields
  exact ⟨w₃, sys, drawn.1, IsTrans.trans _ _ _ first second, rfl⟩

/-! ## Arguments are scalars -/

/-- Whether there are the queries through which a schema describes itself. -/
structure HasOwnQueries (qs : List QueryDecl) : Prop where
  schema : ∃ q ∈ qs, q.name = "__schema"
  type : ∃ q ∈ qs, q.name = "__type" ∧ q.shape = .defaults [(.str "name", .str "")]

theorem Adds.queries {w w' : World} (steps : Adds w w') {q : QueryDecl}
    (h : q ∈ w.schema.queries) : q ∈ w'.schema.queries := by
  induction steps with
  | refl => exact h
  | tail _ step ih =>
    cases step with
    | query q' => exact List.mem_append_left _ ih
    | _ => exact ih

theorem Arranges.queries {w w' : World} (steps : Arranges w w') :
    w'.schema.queries = w.schema.queries := by
  induction steps with
  | refl => rfl
  | tail _ step ih => cases step <;> exact ih

theorem declareQuery_ok {q q' : QueryDecl} {w u : World}
    (h : runOn (declareQuery q) w = (.ok q', u)) : u = w.withQuery q := by
  obtain ⟨_, h⟩ := ensureOpen_ok h
  rw [runOn_bind_ok (runOn_schema w)] at h
  by_cases refused : (reservedQueries.contains q.name && !w.schema.allowsReserved) = true
  · rw [if_pos refused] at h
    cases h
  · rw [if_neg refused] at h
    by_cases taken : (w.schema.findQuery? q.name).isSome = true
    · rw [if_pos taken] at h
      cases h
    · rw [if_neg taken] at h
      cases h
      rfl

/-- The query for the schema. -/
def schemaQuery (context : Param) : QueryDecl :=
  { name := "__schema", description := "The schema itself.", host := .schema, shape := .none
    mode := .unmodified, source := .fixed (.lambda [context] (.lit .schema)) }

/-- The query for the type with a name. -/
def typeQuery (number : Nat) : QueryDecl :=
  { name := "__type"
    description := "The type with the given name, or null if there is none."
    host := .entityType, shape := .defaults [(.str "name", .str "")], mode := .unmodified
    source := .factory (.function number ["arguments"] none typeLookup []) }

theorem addSchemaQueries_ok {w u : World} (h : runOn addSchemaQueries w = (.ok (), u)) :
    u.schema.types = w.schema.types ∧ schemaQuery w.schema.context ∈ u.schema.queries
      ∧ ∃ n, typeQuery n ∈ u.schema.queries := by
  unfold addSchemaQueries at h
  rw [runOn_bind_ok (runOn_schema w)] at h
  obtain ⟨_, w₁, first, h⟩ := bind_eq_ok h
  rw [runOn_bind_ok (runOn_schema w₁), runOn_bind_ok (runOn_update _ w₁)] at h
  obtain ⟨_, v, second, h⟩ := bind_eq_ok h
  cases h
  rw [declareQuery_ok second, declareQuery_ok first]
  refine ⟨rfl, ?_, w.schema.supply, ?_⟩
  · exact List.mem_append_left _ (List.mem_append_right _ (List.mem_singleton_self _))
  · exact List.mem_append_right _ (List.mem_singleton_self _)

theorem addDescription_hasOwnQueries {w u : World} (h : runOn addDescription w = (.ok (), u)) :
    HasOwnQueries u.schema.queries := by
  obtain ⟨_, _, _, v, _, _, _, queries, h⟩ := addDescription_stages h
  have later : Adds v u :=
    keeps_run (keeps_forM _ fun t _ => keeps_addTypeName adds_number adds_field t) h
  obtain ⟨_, schema, n, type⟩ := addSchemaQueries_ok queries
  exact ⟨⟨_, Adds.queries later schema, rfl⟩, ⟨_, Adds.queries later type, rfl, rfl⟩⟩

theorem describe_ok {host : HostType} {w u : World} {t : TypeDecl}
    (h : runOn (describe host) w = (.ok t, u)) : t = w.schema.typeOf host := by
  unfold describe at h
  rw [runOn_bind_ok (runOn_schema w)] at h
  unfold typeOf
  split at h
  · next host' ref =>
    rw [ref]
    split at h
    · rw [runOn_bind_ok (runOn_update _ w)] at h
      cases h
      rfl
    · cases h
      rfl
  · cases h
    rfl

theorem forM_mem_ok {α σ : Type} {f : α → ExceptT Fault (StateM σ) PUnit} {as : List α} {s t : σ}
    (h : runOn (as.forM f) s = (.ok ⟨⟩, t)) {a : α} (ha : a ∈ as) {R : σ → σ → Prop}
    [IsPreorder σ R] (each : ∀ a, Keeps R (f a)) :
    ∃ u v, R s u ∧ runOn (f a) u = (.ok ⟨⟩, v) := by
  induction as generalizing s with
  | nil => cases ha
  | cons b bs ih =>
    obtain ⟨v, first, rest⟩ := forM_cons_ok h
    rcases List.mem_cons.1 ha with rfl | ha
    · exact ⟨s, v, Std.Refl.refl s, first⟩
    · obtain ⟨u, v', steps, run⟩ := ih rest ha
      exact ⟨u, v', IsTrans.trans _ _ _ (keeps_run (each b) first) steps, run⟩

end Schema

/-- Whether a shape describes arguments, and each of them has a scalar type. -/
def ArgShape.IsScalar (w : World) (shape : ArgShape) : Prop :=
  ∃ types, shape.types w = .ok types ∧ ∀ a ∈ types, (w.schema.typeOf a.2).isScalar = true

namespace Schema

theorem typeIn_withSchema (w : World) (f : Schema → Schema) (v : Value) :
    v.typeIn (w.withSchema f) = v.typeIn w := by
  cases v <;> rfl

theorem types_withSchema (w : World) (f : Schema → Schema) (shape : ArgShape) :
    shape.types (w.withSchema f) = shape.types w := by
  cases shape with
  | defaults entries =>
    unfold ArgShape.types
    simp only [typeIn_withSchema]
  | _ => rfl

theorem typeOf_congr {s s' : Schema} (types : s'.types = s.types) (scalars : s'.scalars = s.scalars)
    (host : HostType) : s'.typeOf host = s.typeOf host := by
  unfold typeOf typeRefOf findType? scalarOf? resolve
  rw [types, scalars]

theorem isScalar_withSchema {w : World} {f : Schema → Schema}
    (types : (f w.schema).types = w.schema.types)
    (scalars : (f w.schema).scalars = w.schema.scalars) {shape : ArgShape} :
    shape.IsScalar (w.withSchema f) ↔ shape.IsScalar w := by
  unfold ArgShape.IsScalar
  rw [types_withSchema]
  show (∃ ts : List (Value × HostType), _ ∧ ∀ a ∈ ts, ((f w.schema).typeOf a.2).isScalar = true) ↔ _
  simp only [typeOf_congr types scalars]

theorem isScalar_remembers {w w' : World} (h : Remembers w w') {shape : ArgShape} :
    shape.IsScalar w' ↔ shape.IsScalar w := by
  obtain ⟨hosts, rfl⟩ := h
  exact isScalar_withSchema rfl rfl

theorem checkArguments_ok {owner : Owner} {shape : ArgShape} {w u : World}
    (h : runOn (checkArguments owner shape) w = (.ok (), u)) : shape.IsScalar w := by
  unfold checkArguments at h
  rw [runOn_bind_ok (runOn_get w)] at h
  obtain ⟨types, w₁, found, h⟩ := bind_eq_ok h
  rw [runOn_ofOutcome, Prod.mk.injEq] at found
  obtain ⟨found, rfl⟩ := found
  refine ⟨types, found, fun a ha => ?_⟩
  have each (a : Value × HostType) : Keeps Remembers
      (do
        let t ← describe a.2
        if !t.isScalar then throw (.argumentType owner (a.1.plain (← get)) t.name)
        : Declaring PUnit) := by
    refine keeps_bind (keeps_describe remembers_adHoc a.2) fun t => ?_
    refine keeps_ite (fun _ => ?_) fun _ => keeps_pure _
    exact keeps_bind keeps_get fun w => keeps_throw _
  obtain ⟨v, v', ⟨hosts, rfl⟩, run⟩ := forM_mem_ok h ha each
  obtain ⟨t, v₁, described, rest⟩ := bind_eq_ok run
  have same : t = w.schema.typeOf a.2 := (describe_ok described).trans rfl
  rw [← same]
  by_contra entity
  rw [if_pos (by simpa using entity)] at rest
  rw [runOn_bind_ok (runOn_get v₁)] at rest
  cases rest

/-- Whether the arguments of all fields and queries are scalars. -/
structure ScalarArguments (w : World) : Prop where
  fields : ∀ t ∈ w.schema.types, ∀ f ∈ t.fields, f.shape.IsScalar w
  queries : ∀ q ∈ w.schema.queries, q.shape.IsScalar w

theorem ScalarArguments.withSchema {w : World} {f : Schema → Schema} (h : ScalarArguments w)
    (types : (f w.schema).types = w.schema.types)
    (queries : (f w.schema).queries = w.schema.queries)
    (scalars : (f w.schema).scalars = w.schema.scalars) : ScalarArguments (w.withSchema f) := by
  constructor
  · intro t ht g hg
    exact (isScalar_withSchema types scalars).2 (h.fields t (types ▸ ht) g hg)
  · intro q hq
    exact (isScalar_withSchema types scalars).2 (h.queries q (queries ▸ hq))

theorem checkAllArguments_ok {w u : World} (h : runOn checkAllArguments w = (.ok (), u)) :
    ScalarArguments w := by
  unfold checkAllArguments at h
  rw [runOn_bind_ok (runOn_schema w)] at h
  obtain ⟨_, v, fields, h⟩ := bind_eq_ok h
  have ofType (t : TypeDecl) : Keeps Remembers
      (t.fields.forM fun f => checkArguments (.field f.name t.name) f.shape) :=
    keeps_forM _ fun f _ => keeps_checkArguments remembers_adHoc _ _
  have first : Remembers w v := keeps_run (keeps_forM _ fun t _ => ofType t) fields
  constructor
  · intro t ht f hf
    obtain ⟨v₁, v₂, steps, run⟩ := forM_mem_ok fields ht ofType
    obtain ⟨v₃, v₄, further, check⟩ := forM_mem_ok run hf fun f =>
      keeps_checkArguments (R := Remembers) remembers_adHoc (.field f.name t.name) f.shape
    exact (isScalar_remembers (IsTrans.trans _ _ _ steps further)).1 (checkArguments_ok check)
  · intro q hq
    obtain ⟨v₁, v₂, steps, run⟩ := forM_mem_ok h hq fun q =>
      keeps_checkArguments (R := Remembers) remembers_adHoc (.query q.name) q.shape
    exact (isScalar_remembers (IsTrans.trans _ _ _ first steps)).1 (checkArguments_ok run)

/-- The type of texts is a scalar, since there is a query with a text as its argument. -/
theorem ScalarArguments.text {w : World} (h : ScalarArguments w)
    (own : HasOwnQueries w.schema.queries) :
    (w.schema.typeOf (.builtin .str)).isScalar = true := by
  obtain ⟨q, hq, _, shape⟩ := own.type
  obtain ⟨types, found, each⟩ := h.queries q hq
  rw [shape] at found
  cases found
  exact each _ (List.mem_singleton_self _)

end Schema

/-- Worlds with the same classes and declarations. -/
structure Redeclares (v w : World) : Prop where
  classes : v.classes = w.classes
  types : v.schema.types = w.schema.types
  queries : v.schema.queries = w.schema.queries
  scalars : v.schema.scalars = w.schema.scalars

/-- What is known of a complete schema. -/
structure Sealed (w : World) : Prop where
  completed : w.schema.completed = true
  named : Schema.AllNamed w
  settled : ∀ t ∈ w.schema.types, t.IsSettled
  own : Schema.HasOwnQueries w.schema.queries
  text : (w.schema.typeOf (.builtin .str)).isScalar = true
  system : ∃ v sys, w.schema.system = some sys ∧ Interface.ofSchema v = .ok sys ∧ Redeclares v w

theorem Sealed.records {w : World} (sealed : Sealed w) (t : TypeDecl) (ht : t ∈ w.schema.types)
    (entity : t.isScalar = false) : t.KnowsFields :=
  (sealed.settled t ht).entity entity

namespace Schema

/-- What completing does once everything was added. -/
theorem keeps_arranging : Keeps Arranges (do
    settleProjections
    checkAllArguments
    setUpInterface) := by
  refine keeps_bind keeps_settleProjections fun _ => ?_
  exact keeps_bind (keeps_checkAllArguments arranges_adHoc) fun _ => keeps_setUpInterface

/-- The stages of completing: types are checked, the description is added, and all is arranged. -/
theorem settle_stages {w u : World} (h : runOn settle w = (.ok (), u)) :
    runOn validateTypes w = (.ok (), w)
      ∧ ∃ v, runOn addDescription (w.allowing true) = (.ok (), v)
        ∧ runOn (do
            settleProjections
            checkAllArguments
            setUpInterface) (v.allowing false) = (.ok (), u) := by
  unfold settle at h
  rw [runOn_bind_ok (runOn_schema w)] at h
  split at h
  · cases h
  obtain ⟨_, w₁, valid, h⟩ := bind_eq_ok h
  obtain ⟨_, w₂, described, h⟩ := bind_eq_ok h
  obtain rfl : w = w₁ := keeps_run keeps_validateTypes valid
  obtain ⟨v, drawn, rfl⟩ := addIntrospection_ok described
  exact ⟨valid, v, drawn, h⟩

end Schema

theorem Schema.settle_ok {w u : World} (h : runOn settle w = (.ok (), u))
    (orderly : Orderly w.schema.types) (unprojected : Unprojected w) :
    Sealed u.closed ∧ ScalarArguments u.closed := by
  obtain ⟨_, v, drawn, h⟩ := settle_stages h
  obtain ⟨_, w₃, projected, h⟩ := bind_eq_ok h
  obtain ⟨_, w₄, checked, h⟩ := bind_eq_ok h
  have none : Unprojected v := by
    have steps : Adds (w.allowing true) v :=
      keeps_run (keeps_addDescription adds_describing) drawn
    exact Adds.unprojected steps unprojected
  have named := addDescription_ok drawn orderly
  obtain ⟨named, settled⟩ := settleProjections_ok projected named none
  have described : HasOwnQueries v.schema.queries := addDescription_hasOwnQueries drawn
  have own : HasOwnQueries w₃.schema.queries := by
    rw [Arranges.queries (keeps_run keeps_settleProjections projected)]
    exact described
  have arguments := checkAllArguments_ok checked
  have text := arguments.text own
  obtain ⟨hosts, rfl⟩ : Remembers w₃ w₄ :=
    keeps_run (keeps_checkAllArguments remembers_adHoc) checked
  obtain ⟨v, sys, drawn, ⟨hosts', rfl⟩, rfl⟩ := setUpInterface_ok h
  refine ⟨⟨rfl, named, settled, own, text, _, sys, rfl, drawn, rfl, rfl, rfl, rfl⟩, ?_⟩
  exact (((arguments.withSchema rfl rfl rfl).withSchema rfl rfl rfl).withSchema rfl rfl rfl).withSchema
    rfl rfl rfl

theorem Declaration.sealed {w w' : World} (step : Declaration w w') (h : Sealed w) :
    Sealed w' := by
  obtain ⟨completed, named, settled, own, text, v, sys, system, drawn, kept⟩ := h
  cases step with
  | addition step =>
    cases step with
    | number n =>
      exact ⟨completed, named, settled, own, text, v, sys, system, drawn, kept.1, kept.2, kept.3,
        kept.4⟩
    | adHoc host =>
      exact ⟨completed, named, settled, own, text, v, sys, system, drawn, kept.1, kept.2, kept.3,
        kept.4⟩
    | type t isOpen => simp [completed] at isOpen
    | field i f isOpen => simp [completed] at isOpen
    | query q isOpen => simp [completed] at isOpen
  | left t =>
    exact ⟨completed, named, settled, own, text, v, sys, system, drawn, kept.1, kept.2, kept.3,
      kept.4⟩
  | scalar e isOpen => simp [completed] at isOpen

/-- What is known of every complete schema that is reached. -/
theorem World.IsReached.sealed {w : World} (h : w.IsReached) (completed : w.schema.completed = true) :
    Sealed w := by
  refine completed_induction (fun w w' step _ ih => step.sealed ih) ?_ h completed
  intro w u reached isOpen settled
  exact (Schema.settle_ok settled reached.orderly (reached.unprojected isOpen)).1

end EntityGraph
