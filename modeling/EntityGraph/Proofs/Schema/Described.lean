import EntityGraph.Proofs.Schema.Consistent
import Mathlib.Data.List.Forall2

/-!
# What a schema declares to describe itself

The description of a schema consists of three types and two queries. This module says field by field
what they are, and that every complete schema has exactly these: its type of schemas, its type of
types and its type of fields have the fields listed here, and after them the name of the type.

The stages of completing are followed along a success. Each of them adds to one type only, and finds
this type by its host type, so that it suffices to follow the type that is found.
-/

namespace EntityGraph

/-! ## The description -/

/-- What a field of the description gives for an entity. -/
inductive Reading where
  | member (name : String)
  /-- All types of a schema. -/
  | allTypes
  /-- The same value for all entities. -/
  | constant (v : Value)

namespace Reading

/-- The body of a lambda that reads an entity so. -/
def body : Reading → Expr Value → Expr Value
  | member name, e => .member e name
  | allTypes, e => .method e "list_all_types" []
  | constant v, _ => .lit v

end Reading

/-- A field of the description. -/
structure DescribingField where
  name : String
  host : HostType
  isList : Bool
  reading : Reading

namespace Schema

/-- The name of a type of the description. -/
def describingName? : HostType → Option String
  | .schema => some "__Schema"
  | .entityType => some "__Type"
  | .field => some "__Field"
  | _ => none

/-- The fields of a type of the description, beside the name of the type. -/
def describingFields : HostType → List DescribingField
  | .schema =>
    [⟨"types", .entityType, true, .allTypes⟩,
      ⟨"queryType", .entityType, false, .constant .none⟩,
      ⟨"mutationType", .entityType, false, .constant .none⟩,
      ⟨"directives", .builtin .str, true, .constant (.list [])⟩]
  | .entityType =>
    [⟨"kind", .builtin .str, false, .member "kind"⟩,
      ⟨"name", .builtin .str, false, .member "name"⟩,
      ⟨"description", .builtin .str, false, .member "description"⟩,
      ⟨"fields", .field, true, .member "fields"⟩,
      ⟨"interfaces", .entityType, true, .constant (.list [])⟩]
  | .field =>
    [⟨"name", .builtin .str, false, .member "name"⟩,
      ⟨"description", .builtin .str, false, .member "description"⟩,
      ⟨"type", .entityType, false, .member "type"⟩,
      ⟨"isDeprecated", .builtin .bool, false, .constant (.bool false)⟩,
      ⟨"deprecationReason", .builtin .str, false, .constant (.str "")⟩]
  | _ => []

end Schema

namespace FieldDecl

/-- Whether a field is one of the description. -/
structure Describes (context : Param) (r : DescribingField) (f : FieldDecl) : Prop where
  name : f.name = r.name
  host : f.host = r.host
  isList : f.isList = r.isList
  shape : f.shape = .none
  source : ∃ entity, f.source = .fixed (.lambda [context, entity] (r.reading.body (.param entity)))

theorem Describes.isPost {context : Param} {r : DescribingField} {f : FieldDecl}
    (h : f.Describes context r) : f.isPost = false := by
  obtain ⟨_, source⟩ := h.source
  unfold FieldDecl.isPost
  rw [source]

theorem NamesType.isPost {typeName : String} {f : FieldDecl} (h : f.NamesType typeName) :
    f.isPost = true := by
  obtain ⟨_, source⟩ := h.source
  unfold FieldDecl.isPost
  rw [source]

theorem NamesType.computePost {typeName : String} {f : FieldDecl} (h : f.NamesType typeName)
    (w : World) : f.computePost w = pure (.str typeName) := by
  obtain ⟨_, source⟩ := h.source
  unfold FieldDecl.computePost
  rw [source]
  rfl

end FieldDecl

theorem Schema.findType?_isSome {s : Schema} {host : HostType} :
    (s.findType? host).isSome ↔ ∃ t ∈ s.types, t.host = host := by
  unfold findType?
  rw [List.findIdx?_isSome]
  simp

namespace World

/-- Whether a type is the one that is found for its host type. -/
def Finds (w : World) (t : TypeDecl) : Prop :=
  ∃ i, w.schema.findType? t.host = some i ∧ w.schema.types[i]? = some t

variable {w w' : World} {t : TypeDecl}

theorem Finds.mem (h : w.Finds t) : t ∈ w.schema.types := by
  obtain ⟨i, _, place⟩ := h
  exact List.mem_of_getElem? place

/-- Of types with different host types each is found. -/
theorem finds_of_mem (orderly : Orderly w.schema.types) (ht : t ∈ w.schema.types) : w.Finds t := by
  obtain ⟨i, found⟩ := Option.isSome_iff_exists.1 (Schema.findType?_isSome.2 ⟨t, ht, rfl⟩)
  obtain ⟨bound, is, _⟩ := List.findIdx?_eq_some_iff_getElem.1 found
  have one := List.inj_on_of_nodup_map orderly.hosts (List.getElem_mem bound) ht (by simpa using is)
  exact ⟨i, found, one ▸ List.getElem?_eq_getElem bound⟩

theorem Finds.of_types (h : w.Finds t) (types : w'.schema.types = w.schema.types) :
    w'.Finds t := by
  unfold Finds Schema.findType? at *
  rw [types]
  exact h

theorem Finds.typeOf (h : w.Finds t) : w.schema.typeOf t.host = t := by
  obtain ⟨i, found, place⟩ := h
  simp [Schema.typeOf, Schema.typeRefOf, found, Schema.resolve, place]

theorem typeAt_host {host : HostType} {i : Nat} (found : w.schema.findType? host = some i) :
    (w.typeAt i).host = host := by
  rw [Schema.findType?, List.findIdx?_eq_some_iff_getElem] at found
  obtain ⟨bound, is, _⟩ := found
  rw [Schema.typeAt_of_getElem? (List.getElem?_eq_getElem bound)]
  simpa using is

theorem findType?_changeType (w : World) (i : Nat) {f : TypeDecl → TypeDecl}
    (keeps : ∀ t, (f t).host = t.host) (host : HostType) :
    (w.changeType i f).schema.findType? host = w.schema.findType? host := by
  have hosts : (w.schema.types.modify i f).map (·.host) = w.schema.types.map (·.host) :=
    map_modify_eq _ _ _ keeps
  have found := congrArg (List.findIdx? (· == host)) hosts
  rw [List.findIdx?_map, List.findIdx?_map] at found
  exact found

theorem findType?_withField (w : World) (i : Nat) (f : FieldDecl) (host : HostType) :
    (w.withField i f).schema.findType? host = w.schema.findType? host :=
  findType?_changeType w i (f := fun t => { t with fields := t.fields ++ [f] }) (fun _ => rfl) host

/-- A change at the place of a type is a change of the type. -/
theorem finds_changeType {i : Nat} {f : TypeDecl → TypeDecl} (keeps : ∀ t, (f t).host = t.host)
    (found : w.schema.findType? t.host = some i) (place : w.schema.types[i]? = some t) :
    (w.changeType i f).Finds (f t) := by
  refine ⟨i, ?_, ?_⟩
  · rw [keeps, findType?_changeType w i keeps, found]
  · show (w.schema.types.modify i f)[i]? = _
    rw [List.getElem?_modify, place]
    simp

/-- A change at another place leaves a type as it is. -/
theorem finds_changeOther {i j : Nat} {f : TypeDecl → TypeDecl} (keeps : ∀ t, (f t).host = t.host)
    (found : w.schema.findType? t.host = some j) (place : w.schema.types[j]? = some t)
    (apart : i ≠ j) : (w.changeType i f).Finds t := by
  refine ⟨j, (findType?_changeType w i keeps _).trans found, ?_⟩
  show (w.schema.types.modify i f)[j]? = some t
  rw [List.getElem?_modify, place]
  simp [apart]

theorem Finds.changeType (h : w.Finds t) {i : Nat} {f : TypeDecl → TypeDecl}
    (keeps : ∀ t, (f t).host = t.host) :
    (w.changeType i f).Finds t ∨ (w.changeType i f).Finds (f t) := by
  obtain ⟨j, found, place⟩ := h
  by_cases here : i = j
  · subst here
    exact .inr (finds_changeType keeps found place)
  · exact .inl (finds_changeOther keeps found place here)

/-- A change of the type of one host type leaves those of others as they are. -/
theorem Finds.changeType_other (h : w.Finds t) {i : Nat} {f : TypeDecl → TypeDecl}
    (keeps : ∀ t, (f t).host = t.host) {owner : HostType}
    (found : w.schema.findType? owner = some i) (other : t.host ≠ owner) :
    (w.changeType i f).Finds t := by
  obtain ⟨j, found', place⟩ := h
  refine finds_changeOther keeps found' place ?_
  rintro rfl
  have host := typeAt_host found
  rw [Schema.typeAt_of_getElem? place] at host
  exact other host

theorem findType?_withType {host : HostType} {i : Nat} (found : w.schema.findType? host = some i)
    (u : TypeDecl) : (w.withType u).schema.findType? host = some i := by
  show (w.schema.types ++ [u]).findIdx? _ = some i
  rw [List.findIdx?_append]
  show (w.schema.findType? host).or _ = _
  rw [found]
  rfl

theorem Finds.withType (h : w.Finds t) (u : TypeDecl) : (w.withType u).Finds t := by
  obtain ⟨i, found, place⟩ := h
  refine ⟨i, findType?_withType found u, ?_⟩
  exact (List.getElem?_append_left (List.getElem?_eq_some_iff.1 place).1).trans place

/-- A type is found once it was declared. -/
theorem finds_withType (free : w.schema.findType? t.host = none) : (w.withType t).Finds t := by
  refine ⟨w.schema.types.length, ?_, ?_⟩
  · show (w.schema.types ++ [t]).findIdx? _ = _
    rw [List.findIdx?_append]
    show (w.schema.findType? t.host).or _ = _
    rw [free]
    simp [List.findIdx?_cons]
  · exact List.getElem?_concat_length

end World

/-! ## What a stage adds -/

/-- Worlds of which the second one has what the first one has, up to the type of one host type. -/
structure Spares (owner : HostType) (w w' : World) : Prop where
  places : ∀ host i, w.schema.findType? host = some i → w'.schema.findType? host = some i
  others : ∀ t, t.host ≠ owner → w.Finds t → w'.Finds t
  context : w'.schema.context = w.schema.context

instance (owner : HostType) : IsPreorder World (Spares owner) where
  refl _ := ⟨fun _ _ h => h, fun _ _ h => h, rfl⟩
  trans _ _ _ h h' :=
    ⟨fun host i found => h'.places host i (h.places host i found),
      fun t other found => h'.others t other (h.others t other found), h'.context.trans h.context⟩

theorem spares_of_types {owner : HostType} {w w' : World}
    (types : w'.schema.types = w.schema.types) (context : w'.schema.context = w.schema.context) :
    Spares owner w w' := by
  refine ⟨fun host i found => ?_, fun _ _ found => found.of_types types, context⟩
  unfold Schema.findType? at *
  rw [types]
  exact found

theorem spares_field {owner : HostType} {w : World} {i : Nat}
    (found : w.schema.findType? owner = some i) (f : FieldDecl) :
    Spares owner w (w.withField i f) :=
  ⟨fun host _ found' => (World.findType?_withField w i f host).trans found',
    fun _ other h => h.changeType_other (fun _ => rfl) found other, rfl⟩

/-- Worlds of which the second one has what the first one has, and these fields at the end of one
type. -/
structure Gains (owner : HostType) (rs : List DescribingField) (w w' : World) : Prop where
  spares : Spares owner w w'
  gains : ∀ t, t.host = owner → w.Finds t →
    ∃ fs, List.Forall₂ (FieldDecl.Describes w.schema.context) rs fs
      ∧ w'.Finds { t with fields := t.fields ++ fs }

theorem Gains.nil (owner : HostType) (w : World) : Gains owner [] w w :=
  ⟨Std.Refl.refl w, fun t _ found => ⟨[], .nil, by simpa using found⟩⟩

theorem Gains.append {owner : HostType} {rs rs' : List DescribingField} {w v u : World}
    (first : Gains owner rs w v) (second : Gains owner rs' v u) : Gains owner (rs ++ rs') w u := by
  refine ⟨IsTrans.trans _ _ _ first.spares second.spares, fun t host found => ?_⟩
  obtain ⟨fs, describe, found⟩ := first.gains t host found
  obtain ⟨fs', describe', found⟩ := second.gains { t with fields := t.fields ++ fs } host found
  rw [first.spares.context] at describe'
  refine ⟨fs ++ fs', List.rel_append describe describe', ?_⟩
  rw [← List.append_assoc]
  exact found

/-- A field that is added where its type is found, after nothing but numbers were used. -/
theorem gains_field {owner : HostType} {w v : World} {i : Nat} {r : DescribingField}
    (types : v.schema.types = w.schema.types) (context : v.schema.context = w.schema.context)
    (found : w.schema.findType? owner = some i) {f : FieldDecl}
    (describes : f.Describes w.schema.context r) : Gains owner [r] w (v.withField i f) := by
  have same : Spares owner w v := spares_of_types types context
  have found' := same.places owner i found
  refine ⟨IsTrans.trans _ _ _ same (spares_field found' f), fun t host at_t => ?_⟩
  obtain ⟨j, at_j, place⟩ := at_t.of_types types
  rw [host, found'] at at_j
  cases at_j
  refine ⟨[f], .cons describes .nil, ?_⟩
  exact World.finds_changeType (fun _ => rfl) (host ▸ found') place

namespace Schema

open Declaring

theorem addType_found {host : HostType} {name : Option String} {description : String} {w u : World}
    {t : TypeDecl} (h : runOn (addType host name description) w = (.ok t, u)) :
    t = w.schema.newType host name description ∧ u = w.withType t
      ∧ w.schema.findType? host = none := by
  obtain ⟨_, h⟩ := ensureOpen_ok h
  rw [runOn_bind_ok (runOn_schema w)] at h
  cases free : w.schema.findType? host with
  | some i =>
    rw [free] at h
    cases h
  | none =>
    simp only [free, Option.isSome_none, Bool.false_eq_true, if_false] at h
    split at h
    · cases h
    · cases h
      exact ⟨rfl, rfl, rfl⟩

/-- A lambda over the context and an entity is taken as it is. -/
theorem captureField_built {w : World} {context : Param} (own : w.schema.context = context)
    (typeName : String) (entity : Param) (body : Expr Value) (a : Trail) :
    runOn (captureField w typeName (.ofTree (.lambda [context, entity] body))) a
      = (.ok (.lambda [context, entity] body), a) := by
  unfold captureField Value.ofTree
  simp only []
  rw [if_pos (by simp [own])]
  rfl

variable {w u : World} {owner : HostType}

theorem making_ok {α : Type} {x : World → Making α} {a : α}
    (h : runOn (making x) w = (.ok a, u)) :
    ∃ t, runOn (x w) w.trail = (.ok a, t) ∧ u = w.following t := by
  rw [runOn_making, Prod.mk.injEq] at h
  exact ⟨_, Prod.ext h.1 rfl, h.2.symm⟩

/-- A field of the description that is declared by its body. -/
theorem addBodyField_gains {r : DescribingField} {host : Option HostType}
    (typed : ∀ v entity, let found := (r.reading.body (.param entity)).inferType v entity owner
      host.getD found.host = r.host ∧ (r.isList || (host.isNone && found.isList)) = r.isList)
    (h : runOn (addBodyField owner r.name r.reading.body host r.isList) w = (.ok (), u)) :
    Gains owner [r] w u := by
  unfold addBodyField at h
  rw [runOn_bind_ok (runOn_schema w)] at h
  obtain ⟨entity, w₁, made, h⟩ := bind_eq_ok h
  obtain ⟨t₁, _, rfl⟩ := making_ok made
  obtain ⟨f, w₂, added, h⟩ := bind_eq_ok h
  cases h
  obtain ⟨i, w₃, got, added⟩ := bind_eq_ok added
  obtain ⟨rfl, found⟩ := getType_found got
  obtain ⟨_, added⟩ := ensureOpen_ok added
  rw [runOn_bind_ok (runOn_typeAt i _)] at added
  obtain ⟨e, w₅, captured, added⟩ := bind_eq_ok added
  obtain ⟨t₂, built, rfl⟩ := making_ok captured
  have own : (w.following t₁).schema.context = w.schema.context := rfl
  rw [captureField_built own] at built
  cases built
  rw [runOn_bind_ok (runOn_get _)] at added
  obtain ⟨typed, listed⟩ := typed _ entity
  rw [(insertField_ok added).2]
  refine gains_field (w := w) (v := (w.following t₁).following _) rfl rfl found ?_
  exact ⟨rfl, typed, listed, rfl, entity, rfl⟩

/-- A field of the description that is declared as a member. -/
theorem insertMember_gains {i : Nat} {r : DescribingField} {member : String} {f : FieldDecl}
    (found : w.schema.findType? owner = some i) (reads : r.reading = .member member)
    (name : Text.camelCase member = r.name)
    (typed : ∀ cs : Classes, cs.memberType owner member = ⟨r.host, r.isList⟩)
    (h : runOn (insertMember i member "") w = (.ok f, u)) :
    Gains owner [r] w u := by
  unfold insertMember at h
  rw [runOn_bind_ok (runOn_typeAt i w)] at h
  obtain ⟨e, w₁, made, h⟩ := bind_eq_ok h
  obtain ⟨t, built, rfl⟩ := making_ok made
  cases built
  rw [runOn_bind_ok (runOn_get _)] at h
  rw [(insertField_ok h).2, World.typeAt_host found]
  refine gains_field (w := w) (v := w.following _) rfl rfl found ?_
  have member := typed w.classes
  refine ⟨name, congrArg MemberType.host member, congrArg MemberType.isList member, rfl,
    ⟨w.schema.supply + 1, entityName (w.typeAt i).name⟩, ?_⟩
  rw [reads]
  rfl

/-- Fields of the description that are declared as members. -/
theorem insertMembers_gain {i : Nat} {rs : List DescribingField} {members : List String}
    (found : w.schema.findType? owner = some i)
    (read : List.Forall₂ (fun r member => r.reading = .member member
      ∧ Text.camelCase member = r.name
      ∧ ∀ cs : Classes, cs.memberType owner member = ⟨r.host, r.isList⟩) rs members)
    (h : runOn (members.forM fun m => do let _ ← insertMember i m "") w = (.ok (), u)) :
    Gains owner rs w u := by
  induction read generalizing w with
  | nil =>
    cases h
    exact .nil owner _
  | @cons r m rs ms first rest ih =>
    obtain ⟨v, inserted, h⟩ := forM_cons_ok h
    obtain ⟨f, v', inserted, done⟩ := bind_eq_ok inserted
    cases done
    have gains := insertMember_gains found first.1 first.2.1 first.2.2 inserted
    exact gains.append (ih (gains.spares.places owner i found) h)

theorem addMemberFields_gain {rs : List DescribingField} {members : List String}
    (read : List.Forall₂ (fun r member => r.reading = .member member
      ∧ Text.camelCase member = r.name
      ∧ ∀ cs : Classes, cs.memberType owner member = ⟨r.host, r.isList⟩) rs members)
    (h : runOn (addMemberFields owner members) w = (.ok (), u)) :
    Gains owner rs w u := by
  obtain ⟨i, v, got, inserted⟩ := bind_eq_ok h
  obtain ⟨rfl, found⟩ := getType_found got
  exact insertMembers_gain found read inserted

/-- Worlds of which the second one has what the first one has, and a type of the description without
the name of the type. -/
structure Declared (host : HostType) (w w' : World) : Prop where
  spares : Spares host w w'
  type : ∃ t, t.host = host ∧ some t.name = describingName? host
    ∧ List.Forall₂ (FieldDecl.Describes w.schema.context) (describingFields host) t.fields
    ∧ w'.Finds t

theorem addType_declared {name description : String} {t : TypeDecl} {v : World}
    (own : describingName? owner = some name) (isName : name.isEmpty = false)
    (h : runOn (addType owner (some name) description) w = (.ok t, v))
    (gains : Gains owner (describingFields owner) v u) : Declared owner w u := by
  obtain ⟨rfl, rfl, free⟩ := addType_found h
  have named : (w.schema.newType owner (some name) description).name = name := by
    simp [newType, Option.filter, isName]
  have added : Spares owner w (w.withType (w.schema.newType owner (some name) description)) := by
    refine ⟨fun host i found => ?_, fun t _ found => found.withType _, rfl⟩
    exact World.findType?_withType found _
  obtain ⟨fs, describe, found⟩ := gains.gains (w.schema.newType owner (some name) description) rfl
    (World.finds_withType free)
  refine ⟨IsTrans.trans _ _ _ added gains.spares, _, ?_, ?_, ?_, found⟩
  · rfl
  · rw [own]
    exact congrArg some named
  · exact describe

theorem addSchemaType_declared (h : runOn addSchemaType w = (.ok (), u)) :
    Declared .schema w u := by
  obtain ⟨t, v, declared, h⟩ := bind_eq_ok h
  obtain ⟨_, v₁, types, h⟩ := bind_eq_ok h
  obtain ⟨_, v₂, queryType, h⟩ := bind_eq_ok h
  obtain ⟨_, v₃, mutationType, directives⟩ := bind_eq_ok h
  have types := addBodyField_gains (r := ⟨"types", _, true, .allTypes⟩)
    (fun _ _ => ⟨rfl, rfl⟩) types
  have queryType := addBodyField_gains (r := ⟨"queryType", _, false, .constant .none⟩)
    (fun _ _ => ⟨rfl, rfl⟩) queryType
  have mutationType := addBodyField_gains (r := ⟨"mutationType", _, false, .constant .none⟩)
    (fun _ _ => ⟨rfl, rfl⟩) mutationType
  have directives := addBodyField_gains (r := ⟨"directives", _, true, .constant (.list [])⟩)
    (fun _ _ => ⟨rfl, rfl⟩) directives
  exact addType_declared rfl rfl declared
    (types.append (queryType.append (mutationType.append directives)))

theorem addEntityType_declared (h : runOn addEntityType w = (.ok (), u)) :
    Declared .entityType w u := by
  obtain ⟨t, v, declared, h⟩ := bind_eq_ok h
  obtain ⟨_, v₁, members, h⟩ := bind_eq_ok h
  obtain ⟨_, v₂, fields, interfaces⟩ := bind_eq_ok h
  have members : Gains .entityType ((describingFields .entityType).take 3) v v₁ := by
    refine addMemberFields_gain (.cons ⟨rfl, ?_, fun _ => rfl⟩ (.cons ⟨rfl, ?_, fun _ => rfl⟩
      (.cons ⟨rfl, ?_, fun _ => rfl⟩ .nil))) members
    all_goals decide
  have fields := addBodyField_gains (r := ⟨"fields", _, true, .member "fields"⟩)
    (fun _ _ => ⟨rfl, rfl⟩) fields
  have interfaces := addBodyField_gains (r := ⟨"interfaces", _, true, .constant (.list [])⟩)
    (fun _ _ => ⟨rfl, rfl⟩) interfaces
  exact addType_declared rfl rfl declared (members.append (fields.append interfaces))

theorem addFieldType_declared (h : runOn addFieldType w = (.ok (), u)) :
    Declared .field w u := by
  obtain ⟨t, v, declared, h⟩ := bind_eq_ok h
  obtain ⟨_, v₁, members, h⟩ := bind_eq_ok h
  obtain ⟨_, v₂, deprecated, reason⟩ := bind_eq_ok h
  have members : Gains .field ((describingFields .field).take 3) v v₁ := by
    refine addMemberFields_gain (.cons ⟨rfl, ?_, fun _ => rfl⟩ (.cons ⟨rfl, ?_, fun _ => rfl⟩
      (.cons ⟨rfl, ?_, fun _ => rfl⟩ .nil))) members
    all_goals decide
  have deprecated := addBodyField_gains
    (r := ⟨"isDeprecated", .builtin .bool, false, .constant (.bool false)⟩)
    (fun _ _ => ⟨rfl, rfl⟩) deprecated
  have reason := addBodyField_gains
    (r := ⟨"deprecationReason", .builtin .str, false, .constant (.str "")⟩)
    (fun _ _ => ⟨rfl, rfl⟩) reason
  exact addType_declared rfl rfl declared (members.append (deprecated.append reason))

/-! ## The name of a type -/

theorem addTypeName_spares {t : TypeDecl} (h : runOn (addTypeName t) w = (.ok (), u)) :
    Spares t.host w u := by
  rcases addTypeName_cases h with ⟨_, rfl⟩ | ⟨i, g, found, _, rfl⟩
  · exact Std.Refl.refl u
  · let v := w.numbered (w.schema.supply + 1)
    have same : Spares t.host w v := spares_of_types rfl rfl
    exact IsTrans.trans _ _ _ same (spares_field (w := v) found g)

/-- Whether a type of one world has a field with its name in the next one, unless it is a scalar. -/
def IsNamed (w : World) (t : TypeDecl) : Prop :=
  t.isScalar = true ∧ w.Finds t
    ∨ ∃ g : FieldDecl, g.NamesType t.name ∧ w.Finds { t with fields := t.fields ++ [g] }

theorem IsNamed.spared {t s : TypeDecl} (h : IsNamed w t) (other : t.host ≠ s.host)
    (spares : Spares s.host w u) : IsNamed u t := by
  rcases h with ⟨scalar, found⟩ | ⟨g, named, found⟩
  · exact .inl ⟨scalar, spares.others t other found⟩
  · exact .inr ⟨g, named, spares.others _ other found⟩

theorem addTypeName_named {t : TypeDecl} (h : runOn (addTypeName t) w = (.ok (), u))
    (found : w.Finds t) (unnamed : t.findField? typeNameName = none) : IsNamed u t := by
  rcases addTypeName_cases h with ⟨scalar | named, rfl⟩ | ⟨i, g, found', names, rfl⟩
  · exact .inl ⟨scalar, found⟩
  · simp [unnamed] at named
  · obtain ⟨j, at_j, place⟩ := found
    obtain rfl : i = j := Option.some.inj (found'.symm.trans at_j)
    exact .inr ⟨g, names, World.finds_changeType (fun _ => rfl) found' place⟩

theorem IsNamed.kept {ts : List TypeDecl} {t : TypeDecl} (h : IsNamed w t)
    (run : runOn (ts.forM addTypeName) w = (.ok (), u)) (other : t.host ∉ ts.map (·.host)) :
    IsNamed u t := by
  induction ts generalizing w with
  | nil =>
    cases run
    exact h
  | cons s ts ih =>
    obtain ⟨v, first, rest⟩ := forM_cons_ok run
    rw [List.map_cons, List.mem_cons, not_or] at other
    exact ih (h.spared other.1 (addTypeName_spares first)) rest other.2

/-- Of types with different host types each is named once. -/
theorem addTypeNames_named {ts : List TypeDecl} {t : TypeDecl}
    (h : runOn (ts.forM addTypeName) w = (.ok (), u)) (nodup : (ts.map (·.host)).Nodup)
    (among : t ∈ ts) (found : w.Finds t) (unnamed : t.findField? typeNameName = none) :
    IsNamed u t := by
  induction ts generalizing w with
  | nil => cases among
  | cons s ts ih =>
    obtain ⟨v, first, rest⟩ := forM_cons_ok h
    rw [List.map_cons, List.nodup_cons] at nodup
    rcases List.mem_cons.1 among with rfl | among
    · exact (addTypeName_named first found unnamed).kept rest nodup.1
    · have other : t.host ≠ s.host := fun same => nodup.1 (same ▸ List.mem_map_of_mem among)
      exact ih rest nodup.2 among ((addTypeName_spares first).others t other found)

/-! ## The whole description -/

/-- The field with a name is found where it is found among those of the description. -/
theorem find?_describes {context : Param} {rs : List DescribingField} {fs : List FieldDecl}
    (h : List.Forall₂ (FieldDecl.Describes context) rs fs) (name : String) :
    Option.Rel (FieldDecl.Describes context) (rs.find? (·.name == name))
      (fs.find? (·.name == name)) := by
  induction h with
  | nil => exact .none
  | @cons r f rs fs describes rest ih =>
    rw [List.find?_cons, List.find?_cons, describes.name]
    split
    · exact .some describes
    · exact ih

/-- No field of the description has the name of the one for the name of a type. -/
theorem describingFields_unnamed (host : HostType) :
    (describingFields host).find? (·.name == typeNameName) = none := by
  unfold describingFields
  split <;> decide

theorem describingFields_some {host : HostType} (own : (describingName? host).isSome) :
    describingFields host ≠ [] := by
  unfold describingName? at own
  unfold describingFields
  split at own <;> simp_all

theorem findField?_unnamed {context : Param} {host : HostType} {t : TypeDecl}
    (fields : List.Forall₂ (FieldDecl.Describes context) (describingFields host) t.fields) :
    t.findField? typeNameName = none := by
  have found := find?_describes fields typeNameName
  rw [describingFields_unnamed] at found
  generalize h : t.fields.find? _ = o at found
  cases found
  exact h

/-- What a world has after everything was added. -/
structure Drawn (w : World) : Prop where
  types : ∀ host, (describingName? host).isSome → ∃ t, t.host = host
    ∧ some t.name = describingName? host
    ∧ List.Forall₂ (FieldDecl.Describes w.schema.context) (describingFields host) t.fields
    ∧ IsNamed w t
  schema : schemaQuery w.schema.context ∈ w.schema.queries
  type : ∃ n, typeQuery n ∈ w.schema.queries

/-- A type of the description is still found when all other types were added. -/
theorem Declared.found {host : HostType} {w w' v : World} (h : Declared host w w')
    (later : ∀ t, t.host = host → w'.Finds t → v.Finds t)
    (context : v.schema.context = w.schema.context) :
    ∃ t, t.host = host ∧ some t.name = describingName? host
      ∧ List.Forall₂ (FieldDecl.Describes v.schema.context) (describingFields host) t.fields
      ∧ v.Finds t := by
  obtain ⟨t, is, name, fields, found⟩ := h.type
  exact ⟨t, is, name, context ▸ fields, later t is found⟩

theorem addDescription_drawn (h : runOn addDescription w = (.ok (), u))
    (orderly : Orderly w.schema.types) : Drawn u := by
  obtain ⟨w₁, w₂, w₃, v, schemas, entities, fields, queries, h⟩ := addDescription_stages h
  have first : Adds w w₁ := keeps_run (keeps_addSchemaType adds_describing) schemas
  have second : Adds w₁ w₂ := keeps_run (keeps_addEntityType adds_describing) entities
  have third : Adds w₂ w₃ := keeps_run (keeps_addFieldType adds_describing) fields
  have fourth : Adds w₃ v := keeps_run (keeps_addSchemaQueries adds_describing) queries
  have fifth : Adds v u :=
    keeps_run (keeps_forM _ fun t _ => keeps_addTypeName adds_number adds_field t) h
  have schemas := addSchemaType_declared schemas
  have entities := addEntityType_declared entities
  have fields := addFieldType_declared fields
  obtain ⟨same, schemaQuery, n, typeQuery⟩ := addSchemaQueries_ok queries
  have ordered : Orderly v.schema.types :=
    Settles.orderly (Adds.settles (first.trans (second.trans (third.trans fourth)))) orderly
  have context {a b : World} (steps : Adds a b) : b.schema.context = a.schema.context :=
    (Settles.grown steps.settles).context
  refine ⟨fun host own => ?_, ?_, n, Adds.queries fifth typeQuery⟩
  · have found : ∃ t, t.host = host ∧ some t.name = describingName? host
        ∧ List.Forall₂ (FieldDecl.Describes v.schema.context) (describingFields host) t.fields
        ∧ v.Finds t := by
      unfold describingName? at own
      split at own
      -- Whatever is declared after a type leaves it as it is.
      · refine schemas.found (fun t is found => ?_)
          (context (first.trans (second.trans (third.trans fourth))))
        have found' := entities.spares.others t (by simp [is]) found
        exact (fields.spares.others t (by simp [is]) found').of_types same
      · refine entities.found (fun t is found => ?_) (context (second.trans (third.trans fourth)))
        exact (fields.spares.others t (by simp [is]) found).of_types same
      · exact fields.found (fun t is found => found.of_types same) (context (third.trans fourth))
      · cases own
    obtain ⟨t, is, name, describe, found⟩ := found
    refine ⟨t, is, name, (context fifth).symm ▸ describe, ?_⟩
    exact addTypeNames_named h ordered.hosts found.mem found (findField?_unnamed describe)
  · rw [context (fourth.trans fifth)]
    exact Adds.queries fifth schemaQuery

/-- A type that the description found without the name of its type has it afterwards. -/
theorem addDescription_named (h : runOn addDescription w = (.ok (), u))
    (orderly : Orderly w.schema.types) {t : TypeDecl} (found : w.Finds t)
    (own : describingName? t.host = none) (unnamed : t.findField? typeNameName = none) :
    IsNamed u t := by
  obtain ⟨w₁, w₂, w₃, v, schemas, entities, fields, queries, h⟩ := addDescription_stages h
  have steps : Adds w v :=
    (keeps_run (keeps_addSchemaType adds_describing) schemas).trans <|
      (keeps_run (keeps_addEntityType adds_describing) entities).trans <|
        (keeps_run (keeps_addFieldType adds_describing) fields).trans <|
          keeps_run (keeps_addSchemaQueries adds_describing) queries
  have ordered : Orderly v.schema.types := Settles.orderly (Adds.settles steps) orderly
  have other (host : HostType) (described : (describingName? host).isSome) : t.host ≠ host := by
    rintro rfl
    simp [own] at described
  have found₁ := (addSchemaType_declared schemas).spares.others t (other _ rfl) found
  have found₂ := (addEntityType_declared entities).spares.others t (other _ rfl) found₁
  have found₃ := (addFieldType_declared fields).spares.others t (other _ rfl) found₂
  have found := found₃.of_types (addSchemaQueries_ok queries).1
  exact addTypeNames_named h ordered.hosts found.mem found unnamed

/-! ## What is completed -/

theorem Arranges.finds {w w' : World} (steps : Arranges w w') {t : TypeDecl} (h : w.Finds t) :
    ∃ p, w'.Finds { t with projection := p } := by
  induction steps with
  | refl => exact ⟨t.projection, h⟩
  | tail _ step ih =>
    obtain ⟨p, found⟩ := ih
    cases step with
    | adHoc host => exact ⟨p, found⟩
    | projection i p' =>
      have keeps (t : TypeDecl) : ({ t with projection := some p' } : TypeDecl).host = t.host := rfl
      rcases found.changeType keeps with found | found
      · exact ⟨p, found⟩
      · exact ⟨some p', found⟩
    | system sys => exact ⟨p, found⟩

end Schema

/-- Whether a type is one of the description. -/
structure TypeDecl.Describes (context : Param) (t : TypeDecl) : Prop where
  name : some t.name = Schema.describingName? t.host
  entity : t.isScalar = false
  fields : ∃ fs g, t.fields = fs ++ [g] ∧ g.NamesType t.name
    ∧ List.Forall₂ (FieldDecl.Describes context) (Schema.describingFields t.host) fs

/-- What a complete schema declares to describe itself. -/
structure Described (w : World) : Prop where
  types : ∀ host, (Schema.describingName? host).isSome →
    ∃ t, w.Finds t ∧ t.host = host ∧ t.Describes w.schema.context
  schema : Schema.schemaQuery w.schema.context ∈ w.schema.queries
  type : ∃ n, Schema.typeQuery n ∈ w.schema.queries

namespace Schema

theorem settle_described {w u : World} (h : runOn settle w = (.ok (), u))
    (orderly : Orderly w.schema.types) (unprojected : Unprojected w) : Described u.closed := by
  obtain ⟨sealed, _⟩ := settle_ok h orderly unprojected
  obtain ⟨_, v, drawn, h⟩ := settle_stages h
  have arranged : Arranges (v.allowing false) u := keeps_run keeps_arranging h
  have context : u.schema.context = v.schema.context := (Settles.grown arranged.settles).context
  have queries : u.schema.queries = (v.allowing false).schema.queries := Arranges.queries arranged
  obtain ⟨types, schema, n, type⟩ := addDescription_drawn drawn orderly
  refine ⟨fun host own => ?_, ?_, n, ?_⟩
  · obtain ⟨t, rfl, name, describe, ⟨scalar, found⟩ | ⟨g, named, found⟩⟩ := types host own
    · -- A scalar has no fields, but a type of the description has.
      obtain ⟨p, found⟩ := Arranges.finds arranged (w := v.allowing false) found
      have none := ((sealed.settled _ found.mem).scalar scalar).1
      rw [show t.fields = [] from none, List.forall₂_nil_right_iff] at describe
      exact absurd describe (describingFields_some own)
    · obtain ⟨p, found⟩ := Arranges.finds arranged (w := v.allowing false) found
      refine ⟨_, found, rfl, name, ?_, t.fields, g, rfl, named, ?_⟩
      · show t.isScalar = false
        by_contra scalar
        have none := ((sealed.settled _ found.mem).scalar (by simpa using scalar)).1
        simp at none
      · show List.Forall₂ (FieldDecl.Describes u.schema.context) _ _
        rw [context]
        exact describe
  · show schemaQuery u.schema.context ∈ u.schema.queries
    rw [context, queries]
    exact schema
  · show typeQuery n ∈ u.schema.queries
    rw [queries]
    exact type

end Schema

/-- Declarations leave a complete schema as it describes itself. -/
theorem Described.of_sameSchema {w w' : World} (h : Described w) (same : SameSchema w w') :
    Described w' := by
  obtain ⟨n, hosts, same⟩ := same
  have types : w'.schema.types = w.schema.types := by rw [same]
  have context : w'.schema.context = w.schema.context := by rw [same]
  have queries : w'.schema.queries = w.schema.queries := by rw [same]
  obtain ⟨described, schema, m, type⟩ := h
  refine ⟨fun host own => ?_, ?_, m, ?_⟩
  · obtain ⟨t, found, is, describes⟩ := described host own
    exact ⟨t, found.of_types types, is, context ▸ describes⟩
  · rw [context, queries]
    exact schema
  · rw [queries]
    exact type

/-- Every complete schema describes itself. -/
theorem World.IsReached.described {w : World} (h : w.IsReached)
    (completed : w.schema.completed = true) : Described w := by
  refine completed_induction ?_ ?_ h completed
  · exact fun w w' step before ih => ih.of_sameSchema (step.sameSchema before)
  · intro w u reached isOpen settled
    exact Schema.settle_described settled reached.orderly (reached.unprojected isOpen)

/-! ## Fields of the description -/

namespace TypeDecl.Describes

variable {context : Param} {t : TypeDecl} {name : String}

theorem findField? (h : t.Describes context) {r : DescribingField}
    (own : (Schema.describingFields t.host).find? (·.name == name) = some r) :
    ∃ f, t.findField? name = some f ∧ f.Describes context r := by
  obtain ⟨fs, g, fields, _, describe⟩ := h.fields
  have found := Schema.find?_describes describe name
  rw [own] at found
  obtain ⟨f, is, describes⟩ : ∃ f, fs.find? (·.name == name) = some f ∧ f.Describes context r := by
    generalize fs.find? (·.name == name) = o at found
    cases found with
    | some describes => exact ⟨_, rfl, describes⟩
  refine ⟨f, ?_, describes⟩
  rw [TypeDecl.findField?, fields, List.find?_append, is]
  rfl

theorem findField?_typeName (h : t.Describes context) :
    ∃ g, t.findField? Schema.typeNameName = some g ∧ g.NamesType t.name := by
  obtain ⟨fs, g, fields, named, describe⟩ := h.fields
  have none := Schema.findField?_unnamed (t := { t with fields := fs }) describe
  refine ⟨g, ?_, named⟩
  rw [TypeDecl.findField?, fields, List.find?_append]
  show (TypeDecl.findField? { t with fields := fs } Schema.typeNameName).or _ = _
  rw [none]
  simp [named.name]

/-- Whatever is found is one of the fields of the description, or the one for the name of the type. -/
theorem of_findField? (h : t.Describes context) {f : FieldDecl} (found : t.findField? name = some f) :
    (∃ r, (Schema.describingFields t.host).find? (·.name == name) = some r ∧ f.Describes context r)
      ∨ name = Schema.typeNameName ∧ f.NamesType t.name := by
  obtain ⟨fs, g, fields, named, describe⟩ := h.fields
  rw [TypeDecl.findField?, fields, List.find?_append] at found
  have both := Schema.find?_describes describe name
  generalize fs.find? (·.name == name) = o at both found
  generalize own : (Schema.describingFields t.host).find? (·.name == name) = o' at both
  cases both with
  | @some r _ describes =>
    cases found
    exact .inl ⟨r, rfl, describes⟩
  | none =>
    right
    rw [Option.none_or, List.find?_singleton] at found
    split at found
    · next same =>
      cases found
      exact ⟨(beq_iff_eq.1 same).symm.trans named.name, named⟩
    · cases found

end TypeDecl.Describes

/-- What a completed schema has for the name of an entity type is the field that completing gave it,
unless the type was declared with one of its own. -/
theorem Schema.settle_named {w u : World} (h : runOn settle w = (.ok (), u))
    (orderly : Orderly w.schema.types) (unprojected : Unprojected w) {t : TypeDecl}
    (ht : t ∈ u.schema.types) (entity : t.isScalar = false)
    (undeclared : ∀ s ∈ w.schema.types, s.host = t.host → s.findField? typeNameName = none) :
    ∃ g, t.findField? typeNameName = some g ∧ g.NamesType t.name := by
  have ordered : Orderly u.schema.types := Settles.orderly (keeps_run keeps_settle h) orderly
  cases own : describingName? t.host with
  | some name =>
    obtain ⟨s, found, host, describes⟩ :=
      (settle_described h orderly unprojected).types t.host (by simp [own])
    obtain rfl := List.inj_on_of_nodup_map ordered.hosts (show s ∈ u.schema.types from found.mem)
      ht host
    exact describes.findField?_typeName
  | none =>
    obtain ⟨_, v, drawn, h⟩ := settle_stages h
    have arranged : Arranges (v.allowing false) u := keeps_run keeps_arranging h
    have drew : Extends (w.allowing true) v :=
      keeps_run (keeps_addDescription extends_describing) drawn
    have grown : Extends w u :=
      IsTrans.trans (r := Extends) _ _ _ drew (show Extends (v.allowing false) u from arranged.extends)
    rcases grown t ht with described | ⟨s, hs, host, scalar, _⟩
    · unfold describingField? at described
      split at described <;> simp_all [describingName?]
    · have unnamed := undeclared s hs host
      rcases addDescription_named drawn orderly (World.finds_of_mem orderly hs) (host ▸ own) unnamed
        with ⟨isScalar, _⟩ | ⟨g, named, found⟩
      · cases isScalar.symm.trans (scalar.trans entity)
      · obtain ⟨p, found⟩ := Arranges.finds arranged (w := v.allowing false) found
        obtain rfl := List.inj_on_of_nodup_map ordered.hosts found.mem ht host
        refine ⟨g, ?_, named⟩
        show (s.fields ++ [g]).find? _ = some g
        rw [List.find?_append, show s.fields.find? _ = none from unnamed]
        simp [named.name]

/-! ## Plain data -/

/-- Whether types of plain data are scalars. -/
def PlainScalars (ts : List TypeDecl) : Prop :=
  ∀ t ∈ ts, t.host.isPrimitive = true → t.isScalar = true

theorem PlainScalars.modify {ts : List TypeDecl} (h : PlainScalars ts) (i : Nat)
    {f : TypeDecl → TypeDecl} (host : ∀ t, (f t).host = t.host)
    (scalar : ∀ t, (f t).isScalar = t.isScalar) : PlainScalars (ts.modify i f) := by
  intro u hu
  obtain hu | ⟨t, ht, rfl⟩ := mem_modify hu
  · exact h u hu
  · rw [host, scalar]
    exact h t (List.mem_of_getElem? ht)

theorem Addition.plainScalars {w w' : World} (step : Addition w w')
    (h : PlainScalars w.schema.types) : PlainScalars w'.schema.types := by
  cases step with
  | type t _ _ _ _ _ scalar =>
    intro u hu
    rcases List.mem_append.1 hu with hu | hu
    · exact h u hu
    · rw [List.mem_singleton.1 hu]
      exact scalar
  | field i f => exact h.modify i (fun _ => rfl) fun _ => rfl
  | number n => exact h
  | query q => exact h
  | adHoc host => exact h

theorem Settles.plainScalars {w w' : World} (steps : Settles w w')
    (h : PlainScalars w.schema.types) : PlainScalars w'.schema.types := by
  induction steps with
  | refl => exact h
  | tail _ step ih =>
    cases step with
    | addition step => exact step.plainScalars ih
    | allow b => exact ih
    | arrangement step =>
      cases step with
      | adHoc host => exact ih
      | projection i p => exact ih.modify i (fun _ => rfl) fun _ => rfl
      | system sys => exact ih

theorem World.IsReached.plainScalars {w : World} (h : w.IsReached) :
    PlainScalars w.schema.types := by
  refine reached_induction (P := fun w => PlainScalars w.schema.types) ?_ ?_ ?_ h
  · exact fun _ _ _ _ ht => absurd ht List.not_mem_nil
  · intro w w' step ih
    cases step with
    | addition step => exact step.plainScalars ih
    | left t => exact ih
    | scalar e => exact ih
  · intro w u _ _ ih settled
    have steps : Settles w u := keeps_run Schema.keeps_settle settled
    exact (Settles.plainScalars steps ih : PlainScalars u.schema.types)

theorem World.IsReached.typeOf_plain {w : World} (h : w.IsReached) {host : HostType}
    (plain : host.isPrimitive = true) : (w.schema.typeOf host).isScalar = true := by
  by_contra entity
  have declared := typeOf_mem (by simpa using entity)
  exact entity (h.plainScalars _ declared (by rw [Schema.typeOf_host, plain]))

/-- A field of the description gives plain data, or leads to a type of the description. -/
theorem Schema.describingFields_host {host : HostType} {r : DescribingField}
    (h : r ∈ describingFields host) :
    r.host.isPrimitive = true ∨ (describingName? r.host).isSome = true := by
  unfold describingFields at h
  split at h <;> simp only [List.mem_cons, List.not_mem_nil, or_false] at h
  · rcases h with rfl | rfl | rfl | rfl <;> simp [describingName?, HostType.isPrimitive]
  · rcases h with rfl | rfl | rfl | rfl | rfl <;> simp [describingName?, HostType.isPrimitive]
  · rcases h with rfl | rfl | rfl | rfl | rfl <;> simp [describingName?, HostType.isPrimitive]

/-- The fields of a type of the description take no arguments, and their values are scalars or of a
type of the description again. -/
theorem World.IsReached.describing_leads {w : World} (h : w.IsReached) (described : Described w)
    {t : TypeDecl} (describes : t.Describes w.schema.context) {name : String} {f : FieldDecl}
    (found : t.findField? name = some f) : f.shape = .none
      ∧ ((w.schema.typeOf f.host).isScalar = true
        ∨ (w.schema.typeOf f.host).Describes w.schema.context) := by
  rcases describes.of_findField? found with ⟨r, own, is⟩ | ⟨_, named⟩
  · refine ⟨is.shape, ?_⟩
    rw [is.host]
    rcases Schema.describingFields_host (List.mem_of_find?_eq_some own) with plain | target
    · exact .inl (h.typeOf_plain plain)
    · obtain ⟨u, at_u, host, describes⟩ := described.types _ target
      rw [← host, at_u.typeOf]
      exact .inr describes
  · refine ⟨named.shape, .inl ?_⟩
    rw [named.host]
    exact h.typeOf_plain rfl

end EntityGraph
