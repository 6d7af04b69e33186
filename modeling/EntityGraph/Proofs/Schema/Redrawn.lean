import EntityGraph.Proofs.Schema.Entered

/-!
# The description of a schema in another order

Making a schema describe itself enters the same into schemas with the same entries, in whatever order
these were declared, and succeeds for one of them exactly if it does for the other.
-/

namespace EntityGraph

/-! ## What is entered -/

/-- The entry of a field of the description. -/
def DescribingField.entry (owner : HostType) (r : DescribingField) : Entry :=
  .field owner
    { name := r.name, description := "", host := r.host, isList := r.isList, shape := .none
      source := .fixed (.lit .none) }

/-- The field that gives the name of a type, without its function. -/
def FieldDecl.ofTypeName : FieldDecl :=
  { name := Schema.typeNameName, description := "The name of this object's type."
    host := .builtin .str, isList := false, shape := .none, source := .post .none }

/-- Whether a type gets a field for its name: it is no scalar and has none of its own. -/
def TypeDecl.isUnnamed (t : TypeDecl) : Bool :=
  !t.isScalar && (t.findField? Schema.typeNameName).isNone

/-- The entries that types get for their names. -/
def TypeDecl.nameEntries (ts : List TypeDecl) : List Entry :=
  (ts.filter (·.isUnnamed)).map fun t => .field t.host .ofTypeName

theorem TypeDecl.nameEntries_cons (t : TypeDecl) (ts : List TypeDecl) :
    nameEntries (t :: ts) = nameEntries [t] ++ nameEntries ts := by
  unfold nameEntries
  rw [← List.map_append, ← List.filter_append, List.singleton_append]

namespace Schema

/-- The entries of a type of the description, without the name of the type. -/
def typeEntries (s : Schema) (host : HostType) (name description : String) : List Entry :=
  .type (s.newType host (some name) description).head :: (describingFields host).map (·.entry host)

/-- The entries of the description, without the names of types. -/
def descriptionEntries (s : Schema) : List Entry :=
  s.typeEntries .schema "__Schema" "A schema's types and root operations."
    ++ (s.typeEntries .entityType "__Type" "A type of the schema."
      ++ (s.typeEntries .field "__Field" "A field of a type of the schema."
        ++ [.query (schemaQuery ⟨0, ""⟩).outline, .query (typeQuery 0).outline]))

open Declaring

variable {w u : World} {owner : HostType} {i : Nat}

/-- A lambda that is built already is the function of a field as it is. -/
theorem enters_built (ready : Ready w) (found : w.schema.findType? owner = some i)
    {r : DescribingField} {host : Option HostType} {entity : Param} {body : Expr Value}
    (typed : ∀ v, let found := body.inferType v entity owner
      host.getD found.host = r.host ∧ (r.isList || (host.isNone && found.isList)) = r.isList) :
    Enters w [r.entry owner]
      (addField owner r.name (.ofTree (.lambda [w.schema.context, entity] body)) host r.isList "") := by
  have entered := enters_addField ready found (captureField_built rfl _ entity body w.trail) r.name
    host r.isList ""
  obtain ⟨own, listed⟩ := typed (w.following w.trail)
  have is : computedField r.name "" host r.isList
      (inferField (w.following w.trail) owner (.lambda [w.schema.context, entity] body))
        = { name := r.name, description := "", host := r.host, isList := r.isList, shape := .none
            source := .fixed (.lit .none) } := by
    unfold computedField inferField
    rw [own, listed]
  rw [is] at entered
  exact entered

theorem enters_addTypeName (ready : Ready w) {t : TypeDecl}
    (found : w.schema.findType? t.host = some i) :
    Enters w (TypeDecl.nameEntries [t]) (addTypeName t) := by
  unfold TypeDecl.nameEntries addTypeName
  by_cases unnamed : (!t.isScalar && (t.findField? typeNameName).isNone) = true
  · rw [List.filter_cons_of_pos (show t.isUnnamed = true from unnamed), if_pos unnamed]
    refine Enters.after (runOn_schema w) (.refl ready) ?_
    refine Enters.after (runOn_update _ w) (entered_following ready { w.trail with supply := _ }) ?_
    refine Enters.done (b := fun _ => ()) ?_
    exact enters_addPostField (w := w.numbered (w.schema.supply + 1)) ⟨ready.isOpen, ready.types⟩
      found _ _ none (some (.builtin .str)) _
  · rw [List.filter_cons_of_neg (show ¬t.isUnnamed = true from unnamed), if_neg unnamed]
    exact enters_of_run rfl (.refl ready) trivial

theorem enters_addTypeNames (ready : Ready w) {ts : List TypeDecl}
    (found : ∀ t ∈ ts, (w.schema.findType? t.host).isSome) :
    Enters w (TypeDecl.nameEntries ts) (ts.forM addTypeName) := by
  induction ts generalizing w with
  | nil => exact enters_of_run rfl (.refl ready) trivial
  | cons t ts ih =>
    obtain ⟨i, at_i⟩ := Option.isSome_iff_exists.1 (found t (by simp))
    rw [TypeDecl.nameEntries_cons]
    refine (enters_addTypeName ready at_i).bind fun _ u _ entered => ih entered.ready fun s hs => ?_
    obtain ⟨j, at_j⟩ := Option.isSome_iff_exists.1 (found s (by simp [hs]))
    exact Option.isSome_of_eq_some (entered.places _ _ at_j)

/-- Nothing stands in the way of the names of types. -/
theorem takes_typeNames (types : Orderly w.schema.types) :
    TakesAll w.schema.Has (TypeDecl.nameEntries w.schema.types) := by
  refine takesAll_fields (fun t ht => ?_) (types.hosts.sublist (List.filter_sublist.map _))
  obtain ⟨ht, unnamed⟩ := List.mem_filter.1 ht
  obtain ⟨i, found, place⟩ := World.finds_of_mem types ht
  refine (takes_field types found .ofTypeName).2 ?_
  rw [typeAt_of_getElem? place]
  exact Option.isNone_iff_eq_none.1 (Bool.and_eq_true_iff.1 unnamed).2

/-! ## Types of the description -/

/-- Whether a declaration enters these entries wherever a type is found at its place. -/
def EntersAt {α : Type} (owner : HostType) (i : Nat) (xs : List Entry) (x : Declaring α) : Prop :=
  ∀ w, Ready w → w.schema.findType? owner = some i → Enters w xs x

theorem EntersAt.bind {α β : Type} {xs ys : List Entry} {x : Declaring α} {f : α → Declaring β}
    (first : EntersAt owner i xs x) (rest : ∀ a, EntersAt owner i ys (f a)) :
    EntersAt owner i (xs ++ ys) (x >>= f) :=
  fun w ready found => (first w ready found).bind fun a u _ entered =>
    rest a u entered.ready (entered.places _ _ found)

theorem entersAt_addBodyField {r : DescribingField} {host : Option HostType}
    (typed : ∀ v entity, let found := (r.reading.body (.param entity)).inferType v entity owner
      host.getD found.host = r.host ∧ (r.isList || (host.isNone && found.isList)) = r.isList) :
    EntersAt owner i [r.entry owner] (addBodyField owner r.name r.reading.body host r.isList) := by
  intro w ready found
  refine Enters.after (runOn_schema w) (.refl ready) ?_
  refine Enters.after rfl (entered_following ready _) ?_
  refine Enters.done (b := fun _ => ()) ?_
  exact enters_built (w := w.following _) ⟨ready.isOpen, ready.types⟩ found fun v => typed v _

theorem entersAt_insertMember {r : DescribingField} {member : String}
    (name : Text.camelCase member = r.name)
    (typed : ∀ cs : Classes, cs.memberType owner member = ⟨r.host, r.isList⟩) :
    EntersAt owner i [r.entry owner] (do let _ ← insertMember i member "") := by
  intro w ready found
  have entered := enters_insertMember ready found member ""
  have is : memberField w.classes owner member ""
      = { name := r.name, description := "", host := r.host, isList := r.isList, shape := .none
          source := .fixed (.lit .none) } := by
    unfold memberField computedField
    rw [typed, name]
    rfl
  rw [is] at entered
  exact entered.done fun _ => ()

theorem entersAt_addMemberFields {rs : List DescribingField} {members : List String}
    (read : List.Forall₂ (fun r member => Text.camelCase member = r.name
      ∧ ∀ cs : Classes, cs.memberType owner member = ⟨r.host, r.isList⟩) rs members) :
    EntersAt owner i (rs.map (·.entry owner)) (addMemberFields owner members) := by
  have each : EntersAt owner i (rs.map (·.entry owner))
      (members.forM fun m => do let _ ← insertMember i m "") := by
    induction read with
    | nil => exact fun w ready _ => enters_of_run rfl (.refl ready) trivial
    | cons first _ ih => exact (entersAt_insertMember first.1 first.2).bind fun _ => ih
  exact fun w ready found => enters_getType ready found (each w ready found)

/-- A type of the description is entered with its fields. -/
theorem enters_describingType (ready : Ready w) {name description : String}
    {rest : TypeDecl → Declaring Unit}
    (fields : ∀ t i, EntersAt owner i ((describingFields owner).map (·.entry owner)) (rest t)) :
    Enters w (w.schema.typeEntries owner name description)
      (addType owner (some name) description >>= rest) := by
  refine (enters_addType ready owner (some name) description).bind fun t v added entered => ?_
  obtain ⟨rfl, rfl, free⟩ := addType_found added
  obtain ⟨i, found, _⟩ := World.finds_withType
    (t := w.schema.newType owner (some name) description) free
  exact fields _ i _ entered.ready found

theorem enters_addSchemaType (ready : Ready w) :
    Enters w (w.schema.typeEntries .schema "__Schema" "A schema's types and root operations.")
      addSchemaType := by
  refine enters_describingType ready fun _ i => ?_
  refine EntersAt.bind (entersAt_addBodyField (r := ⟨"types", .entityType, true, .allTypes⟩)
    fun _ _ => ⟨rfl, rfl⟩) fun _ => ?_
  refine EntersAt.bind (entersAt_addBodyField
    (r := ⟨"queryType", .entityType, false, .constant .none⟩)
    fun _ _ => ⟨rfl, rfl⟩) fun _ => ?_
  refine EntersAt.bind (entersAt_addBodyField
    (r := ⟨"mutationType", .entityType, false, .constant .none⟩)
    fun _ _ => ⟨rfl, rfl⟩) fun _ => ?_
  exact entersAt_addBodyField (r := ⟨"directives", .builtin .str, true, .constant (.list [])⟩)
    fun _ _ => ⟨rfl, rfl⟩

theorem enters_addEntityType (ready : Ready w) :
    Enters w (w.schema.typeEntries .entityType "__Type" "A type of the schema.")
      addEntityType := by
  refine enters_describingType ready fun _ i => ?_
  have members : EntersAt .entityType i
      (((describingFields .entityType).take 3).map (·.entry .entityType))
      (addMemberFields .entityType ["kind", "name", "description"]) := by
    refine entersAt_addMemberFields (.cons ⟨?_, fun _ => rfl⟩ (.cons ⟨?_, fun _ => rfl⟩
      (.cons ⟨?_, fun _ => rfl⟩ .nil)))
    all_goals decide
  refine members.bind fun _ => ?_
  refine EntersAt.bind (entersAt_addBodyField (r := ⟨"fields", .field, true, .member "fields"⟩)
    fun _ _ => ⟨rfl, rfl⟩) fun _ => ?_
  exact entersAt_addBodyField (r := ⟨"interfaces", .entityType, true, .constant (.list [])⟩)
    fun _ _ => ⟨rfl, rfl⟩

theorem enters_addFieldType (ready : Ready w) :
    Enters w (w.schema.typeEntries .field "__Field" "A field of a type of the schema.")
      addFieldType := by
  refine enters_describingType ready fun _ i => ?_
  have members : EntersAt .field i (((describingFields .field).take 3).map (·.entry .field))
      (addMemberFields .field ["name", "description", "type"]) := by
    refine entersAt_addMemberFields (.cons ⟨?_, fun _ => rfl⟩ (.cons ⟨?_, fun _ => rfl⟩
      (.cons ⟨?_, fun _ => rfl⟩ .nil)))
    all_goals decide
  refine members.bind fun _ => ?_
  refine EntersAt.bind (entersAt_addBodyField
    (r := ⟨"isDeprecated", .builtin .bool, false, .constant (.bool false)⟩)
    fun _ _ => ⟨rfl, rfl⟩) fun _ => ?_
  exact entersAt_addBodyField (r := ⟨"deprecationReason", .builtin .str, false, .constant (.str "")⟩)
    fun _ _ => ⟨rfl, rfl⟩

theorem enters_addSchemaQueries (ready : Ready w) (allowed : w.schema.allowsReserved = true) :
    Enters w [.query (schemaQuery ⟨0, ""⟩).outline, .query (typeQuery 0).outline]
      addSchemaQueries := by
  refine Enters.after (runOn_schema w) (.refl ready) ?_
  refine (enters_declareQuery ready (q := schemaQuery w.schema.context) fun _ => allowed).bind
    fun _ v _ entered => ?_
  have ready := entered.ready
  refine Enters.after (runOn_schema v) (.refl ready) ?_
  refine Enters.after (runOn_update _ v) (entered_following ready { v.trail with supply := _ }) ?_
  refine Enters.done (b := fun _ => ()) ?_
  exact enters_declareQuery (w := v.numbered (v.schema.supply + 1)) ⟨ready.isOpen, ready.types⟩
    (q := typeQuery v.schema.supply) fun _ => entered.reserved.trans allowed

/-! ## The whole description -/

theorem newType_congr {s s' : Schema} (scalars : s'.scalars = s.scalars) (host : HostType)
    (name : Option String) (description : String) :
    s'.newType host name description = s.newType host name description := by
  unfold newType isScalarHost scalarOf?
  rw [scalars]

theorem typeEntries_congr {s s' : Schema} (scalars : s'.scalars = s.scalars) (host : HostType)
    (name description : String) :
    s'.typeEntries host name description = s.typeEntries host name description := by
  unfold typeEntries
  rw [newType_congr scalars]

/-- The description without the names of types. -/
def addDescriptionOnly : Declaring Unit := do
  addSchemaType
  addEntityType
  addFieldType
  addSchemaQueries

theorem addDescription_eq :
    addDescription = (do
      addDescriptionOnly
      (← schema).types.forM addTypeName) := by
  simp only [addDescription, addDescriptionOnly, bind_assoc]

theorem enters_addDescriptionOnly (ready : Ready w) (allowed : w.schema.allowsReserved = true) :
    Enters w w.schema.descriptionEntries addDescriptionOnly := by
  refine (enters_addSchemaType ready).bind fun _ v₁ _ h₁ => ?_
  rw [← typeEntries_congr h₁.scalars, ← typeEntries_congr h₁.scalars]
  refine (enters_addEntityType h₁.ready).bind fun _ v₂ _ h₂ => ?_
  rw [← typeEntries_congr h₂.scalars]
  refine (enters_addFieldType h₂.ready).bind fun _ v₃ _ h₃ => ?_
  refine enters_addSchemaQueries h₃.ready ?_
  rw [h₃.reserved, h₂.reserved, h₁.reserved, allowed]

/-- Making a schema describe itself succeeds if its own entries can be taken. -/
theorem addDescription_succeeds (ready : Ready w) (allowed : w.schema.allowsReserved = true)
    (taken : TakesAll w.schema.Has w.schema.descriptionEntries) :
    ∃ u, runOn addDescription w = (.ok (), u) := by
  obtain ⟨_, v, first⟩ := (enters_addDescriptionOnly ready allowed).succeeds taken
  obtain ⟨entered, _⟩ := (enters_addDescriptionOnly ready allowed).entered _ v first
  have named := enters_addTypeNames entered.ready fun t (ht : t ∈ v.schema.types) =>
    findType?_isSome.2 ⟨t, ht, rfl⟩
  obtain ⟨_, u, rest⟩ := named.succeeds (takes_typeNames entered.ready.types)
  exact ⟨u, by rw [addDescription_eq, runOn_bind_ok first, runOn_bind_ok (runOn_schema v), rest]⟩

/-- What a schema has once it describes itself: its own entries, and the names of all types. -/
theorem addDescription_entered (ready : Ready w) (allowed : w.schema.allowsReserved = true)
    (h : runOn addDescription w = (.ok (), u)) :
    TakesAll w.schema.Has w.schema.descriptionEntries
      ∧ ∃ v, Entered w w.schema.descriptionEntries v
        ∧ Entered v (TypeDecl.nameEntries v.schema.types) u := by
  rw [addDescription_eq] at h
  obtain ⟨_, v, first, rest⟩ := bind_eq_ok h
  obtain ⟨entered, taken⟩ := (enters_addDescriptionOnly ready allowed).entered _ v first
  refine ⟨taken, v, entered, ?_⟩
  rw [runOn_bind_ok (runOn_schema v)] at rest
  exact ((enters_addTypeNames entered.ready fun t ht =>
    findType?_isSome.2 ⟨t, ht, rfl⟩).entered _ u rest).1

end Schema

end EntityGraph
