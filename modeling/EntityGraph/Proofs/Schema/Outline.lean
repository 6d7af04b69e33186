import EntityGraph.Proofs.Schema.Described

/-!
# What a schema declares

The outline of a schema is all that it declares about its types, fields and queries, apart from the
functions that compute values and from the order of the declarations. It consists of entries, and a
step of a declaration adds one entry or none. Two schemas of which neither declares anything twice
have the same declarations in perhaps another order if they have the same entries.
-/

namespace EntityGraph

/-! ## Entries -/

/-- A source without its function. -/
def FieldSource.outline : FieldSource → FieldSource
  | fixed _ => fixed (.lit .none)
  | factory _ => factory .none
  | post _ => post .none

/-- A source without its function. -/
def QuerySource.outline : QuerySource → QuerySource
  | fixed _ => fixed (.lit .none)
  | factory _ => factory .none

/-- A field without its function. -/
def FieldDecl.outline (f : FieldDecl) : FieldDecl := { f with source := f.source.outline }

/-- A query without its function. -/
def QueryDecl.outline (q : QueryDecl) : QueryDecl := { q with source := q.source.outline }

/-- One thing that a schema declares: a type without its fields, a field of the type of a host type,
or a query. -/
inductive Entry where
  | type (head : TypeDecl)
  | field (owner : HostType) (f : FieldDecl)
  | query (q : QueryDecl)

/-- The shape of the arguments of what is declared. -/
def Entry.shape? : Entry → Option ArgShape
  | .type _ => none
  | .field _ f => some f.shape
  | .query q => some q.shape

namespace Schema

/-- Whether a schema has an entry. -/
def Has (s : Schema) : Entry → Prop
  | .type head => ∃ t ∈ s.types, t.head = head
  | .field owner f => ∃ t ∈ s.types, t.host = owner ∧ ∃ g ∈ t.fields, g.outline = f
  | .query q => ∃ p ∈ s.queries, p.outline = q

theorem has_type {s : Schema} {head : TypeDecl} :
    s.Has (.type head) ↔ head ∈ s.types.map TypeDecl.head :=
  List.mem_map.symm

/-- What a step that adds entries does to those that a schema has. -/
def HasMore (s s' : Schema) (xs : List Entry) : Prop := ∀ x, s'.Has x ↔ s.Has x ∨ x ∈ xs

theorem has_congr {s s' : Schema} (types : s'.types = s.types) (queries : s'.queries = s.queries)
    (x : Entry) : s'.Has x ↔ s.Has x := by
  cases x <;> simp only [Has, types, queries]

theorem hasMore_type (w : World) {t : TypeDecl} (fields : t.fields = []) :
    HasMore w.schema (w.withType t).schema [.type t.head] := by
  intro x
  cases x <;> simp [Has, World.withType, World.withSchema, or_and_right, exists_or, fields,
    eq_comm (a := t.head)]

theorem hasMore_query (w : World) (q : QueryDecl) :
    HasMore w.schema (w.withQuery q).schema [.query q.outline] := by
  intro x
  cases x <;> simp [Has, World.withQuery, World.withSchema, or_and_right, exists_or,
    eq_comm (a := q.outline)]

/-- A type that differs in its projection only stands for the same entries. -/
theorem has_projected (w : World) (i : Nat) (p : Projection) (x : Entry) :
    (w.projected i p).schema.Has x ↔ w.schema.Has x := by
  have heads : (w.projected i p).schema.types.map TypeDecl.head = w.schema.types.map TypeDecl.head :=
    map_modify_eq _ _ _ fun _ => rfl
  cases x with
  | type head => rw [has_type, has_type, heads]
  | query q => exact Iff.rfl
  | field owner f =>
    constructor
    · rintro ⟨t, ht, host, declared⟩
      obtain ht | ⟨u, hu, rfl⟩ := mem_modify ht
      · exact ⟨t, ht, host, declared⟩
      · exact ⟨u, List.mem_of_getElem? hu, host, declared⟩
    · rintro ⟨t, ht, host, declared⟩
      obtain ht | ht := mem_of_modify i (fun t => { t with projection := some p }) ht
      · exact ⟨t, ht, host, declared⟩
      · exact ⟨_, ht, host, declared⟩

theorem hasMore_field {w : World} {i : Nat} {t : TypeDecl} (place : w.schema.types[i]? = some t)
    (f : FieldDecl) : HasMore w.schema (w.withField i f).schema [.field t.host f.outline] := by
  have heads : (w.withField i f).schema.types.map TypeDecl.head = w.schema.types.map TypeDecl.head :=
    sameHeads_field w i f
  intro x
  cases x with
  | type head =>
    rw [has_type, has_type, heads]
    simp
  | query q => simp [Has, World.withField, World.changeType, World.withSchema]
  | field owner g =>
    rw [List.mem_singleton, Entry.field.injEq]
    constructor
    · rintro ⟨u, hu, host, g', hg', rfl⟩
      obtain hu | ⟨u', at_i, rfl⟩ := mem_modify hu
      · exact .inl ⟨u, hu, host, g', hg', rfl⟩
      · obtain rfl : t = u' := Option.some.inj (place.symm.trans at_i)
        rcases List.mem_append.1 hg' with hg' | hg'
        · exact .inl ⟨t, List.mem_of_getElem? place, host, g', hg', rfl⟩
        · exact .inr ⟨host.symm, congrArg _ (List.mem_singleton.1 hg')⟩
    · rintro (⟨u, hu, host, g', hg', rfl⟩ | ⟨rfl, rfl⟩)
      · obtain hu | hu := mem_of_modify i (fun t => { t with fields := t.fields ++ [f] }) hu
        · exact ⟨u, hu, host, g', hg', rfl⟩
        · exact ⟨_, hu, host, g', List.mem_append_left _ hg', rfl⟩
      · refine ⟨{ t with fields := t.fields ++ [f] }, List.mem_of_getElem? (i := i) ?_, rfl, f,
          List.mem_append_right _ (List.mem_singleton_self f), rfl⟩
        show (w.schema.types.modify i _)[i]? = _
        rw [List.getElem?_modify, place]
        simp

end Schema

/-! ## The same declarations -/

/-- Types with the same head and the same fields in perhaps another order, apart from functions. -/
structure TypeDecl.Twin (t t' : TypeDecl) : Prop where
  head : t.head = t'.head
  fields : ∀ f, f ∈ t.fields.map FieldDecl.outline ↔ f ∈ t'.fields.map FieldDecl.outline

namespace TypeDecl.Twin

variable {t t' : TypeDecl} (twin : t.Twin t')

include twin

theorem host : t.host = t'.host :=
  show t.head.host = t'.head.host from congrArg _ twin.head

theorem name : t.name = t'.name :=
  show t.head.name = t'.head.name from congrArg _ twin.head

theorem isScalar : t.isScalar = t'.isScalar :=
  show t.head.isScalar = t'.head.isScalar from congrArg _ twin.head

theorem field {f : FieldDecl} (hf : f ∈ t.fields) : ∃ f' ∈ t'.fields, f'.outline = f.outline :=
  List.mem_map.1 ((twin.fields _).1 (List.mem_map_of_mem hf))

theorem symm : t'.Twin t := ⟨twin.head.symm, fun f => (twin.fields f).symm⟩

theorem unnamed {name : String} (free : t.findField? name = none) : t'.findField? name = none := by
  unfold TypeDecl.findField? at *
  rw [List.find?_eq_none] at *
  intro f hf same
  obtain ⟨g, hg, outline⟩ := twin.symm.field hf
  have is : g.outline.name = f.outline.name := congrArg _ outline
  exact free g hg (by rw [show g.name = f.name from is]; exact same)

theorem empty (none : t.fields = []) : t'.fields = [] := by
  cases fields : t'.fields with
  | nil => rfl
  | cons f fs =>
    obtain ⟨g, hg, _⟩ := twin.symm.field (f := f) (by rw [fields]; exact List.mem_cons_self)
    rw [none] at hg
    cases hg

end TypeDecl.Twin

/-- Schemas with the same entries and the same scalars, of which the same one comes first for each host
type. -/
structure Schema.Reordered (s s' : Schema) : Prop where
  types : Orderly s.types
  types' : Orderly s'.types
  entries : ∀ x, s.Has x ↔ s'.Has x
  scalars : s.scalars.Perm s'.scalars
  translators : ∀ host, Registry.findHost? s.scalars host = Registry.findHost? s'.scalars host

namespace Schema

theorem typeOf_undeclared {s : Schema} {host : HostType} (undeclared : s.findType? host = none) :
    s.typeOf host
      = ((Registry.findHost? s.scalars host).map ScalarEntry.typeDecl).getD (.adHoc host) := by
  unfold typeOf typeRefOf
  rw [undeclared, Registry.findHost?, List.find?_eq_bind_findIdx?_getElem?]
  cases found : s.scalarOf? host with
  | none =>
    unfold scalarOf? at found
    rw [found]
    rfl
  | some i =>
    obtain ⟨bound, _⟩ := List.findIdx?_eq_some_iff_getElem.1 found
    unfold scalarOf? at found
    rw [found]
    simp [resolve, List.getElem?_eq_getElem bound]

theorem isScalarHost_eq (s : Schema) (host : HostType) :
    s.isScalarHost host = (host.isPrimitive || (Registry.findHost? s.scalars host).isSome) := by
  rw [isScalarHost, scalarOf?, Registry.findHost?, List.find?_eq_bind_findIdx?_getElem?]
  cases found : s.scalars.findIdx? (·.host == host) with
  | none => rfl
  | some i =>
    obtain ⟨bound, _⟩ := List.findIdx?_eq_some_iff_getElem.1 found
    simp [List.getElem?_eq_getElem bound]

namespace Reordered

variable {s s' : Schema} (same : s.Reordered s')

include same

theorem symm : s'.Reordered s :=
  ⟨same.types', same.types, fun x => (same.entries x).symm, same.scalars.symm,
    fun host => (same.translators host).symm⟩

theorem twin {t : TypeDecl} (ht : t ∈ s.types) : ∃ t' ∈ s'.types, t.Twin t' := by
  obtain ⟨t', ht', head⟩ := (same.entries (.type t.head)).1 ⟨t, ht, rfl⟩
  have host : t'.host = t.host := show t'.head.host = t.head.host by rw [head]
  refine ⟨t', ht', head.symm, fun f => ?_⟩
  -- Either type is the only one of its host type.
  constructor
  · intro hf
    obtain ⟨u, hu, is, declared⟩ := (same.entries (.field t.host f)).1
      ⟨t, ht, rfl, List.mem_map.1 hf⟩
    obtain rfl := List.inj_on_of_nodup_map same.types'.hosts hu ht' (is.trans host.symm)
    exact List.mem_map.2 declared
  · intro hf
    obtain ⟨u, hu, is, declared⟩ := (same.entries (.field t.host f)).2
      ⟨t', ht', host, List.mem_map.1 hf⟩
    obtain rfl := List.inj_on_of_nodup_map same.types.hosts hu ht is
    exact List.mem_map.2 declared

theorem query {q : QueryDecl} (hq : q ∈ s.queries) : ∃ q' ∈ s'.queries, q'.outline = q.outline :=
  (same.entries (.query q.outline)).1 ⟨q, hq, rfl⟩

theorem undeclared {host : HostType} (free : s.findType? host = none) :
    s'.findType? host = none := by
  rw [← Option.not_isSome_iff_eq_none, findType?_isSome] at *
  rintro ⟨t', ht', is⟩
  obtain ⟨t, ht, twin⟩ := same.symm.twin ht'
  exact free ⟨t, ht, twin.host.symm.trans is⟩

theorem isScalarHost (host : HostType) : s.isScalarHost host = s'.isScalarHost host := by
  rw [isScalarHost_eq, isScalarHost_eq, same.translators]

/-- Every host type is described by the same type, apart from functions. -/
theorem typeOf (host : HostType) : (s.typeOf host).Twin (s'.typeOf host) := by
  cases found : s.findType? host with
  | none =>
    rw [typeOf_undeclared found, typeOf_undeclared (same.undeclared found), same.translators]
    exact ⟨rfl, fun _ => Iff.rfl⟩
  | some i =>
    obtain ⟨t, ht, rfl⟩ := findType?_isSome.1 (Option.isSome_of_eq_some found)
    obtain ⟨t', ht', twin⟩ := same.twin ht
    have at_t : s.typeOf t.host = t :=
      World.Finds.typeOf (w := { (default : World) with schema := s })
        (World.finds_of_mem same.types ht)
    have at_t' : s'.typeOf t'.host = t' :=
      World.Finds.typeOf (w := { (default : World) with schema := s' })
        (World.finds_of_mem same.types' ht')
    rw [at_t, twin.host, at_t']
    exact twin

end Reordered

end Schema

/-- Worlds whose schemas have the same declarations in perhaps another order, and in which the shapes
among these describe the same arguments. -/
structure World.Counterparts (w w' : World) : Prop where
  schema : w.schema.Reordered w'.schema
  shapes : ∀ x shape, w.schema.Has x → x.shape? = some shape → shape.types w = shape.types w'

namespace World.Counterparts

variable {w w' : World} (same : w.Counterparts w')

include same

theorem symm : w'.Counterparts w :=
  ⟨same.schema.symm, fun x shape has is =>
    (same.shapes x shape ((same.schema.entries x).2 has) is).symm⟩

theorem fieldShape {t : TypeDecl} {f : FieldDecl} (ht : t ∈ w.schema.types) (hf : f ∈ t.fields) :
    f.shape.types w = f.shape.types w' :=
  same.shapes (.field t.host f.outline) f.shape ⟨t, ht, rfl, f, hf, rfl⟩ rfl

theorem queryShape {q : QueryDecl} (hq : q ∈ w.schema.queries) :
    q.shape.types w = q.shape.types w' :=
  same.shapes (.query q.outline) q.shape ⟨q, hq, rfl⟩ rfl

end World.Counterparts

end EntityGraph
