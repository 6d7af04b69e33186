import EntityGraph.Proofs.Schema.Entered

/-!
# Refused declarations

Every call that declares one thing does all of its checks before it declares it, captures of functions
included. So a call that is refused leaves the schema as it was; only numbers were used, and what the
functions of the application assigned stays assigned.

Declaring all members of a class is not one declaration but several, one member after the other, and
there is no way back. A member that is refused leaves the fields of the members before it declared.
-/

namespace EntityGraph

/-- Worlds of which the second one is the first one with something left behind. -/
def Untouched (w w' : World) : Prop := ∃ t, w' = w.following t

instance : IsPreorder World Untouched where
  refl w := ⟨w.trail, rfl⟩
  trans := by
    rintro w _ _ ⟨t, rfl⟩ ⟨t', rfl⟩
    exact ⟨t', rfl⟩

theorem Untouched.schema {w w' : World} (h : Untouched w w') :
    w'.schema = { w.schema with supply := w'.schema.supply } := by
  obtain ⟨t, rfl⟩ := h
  rfl

namespace Schema

open Declaring

variable {α β : Type}

/-- Whether a declaration that fails declares nothing. -/
def IsWhole (x : Declaring α) : Prop :=
  ∀ (w w' : World) (f : Fault), runOn x w = (.error f, w') → Untouched w w'

/-! ## What declares one thing in the end -/

theorem whole_of_keeps {x : Declaring α} (h : Keeps Untouched x) : IsWhole x :=
  fun _ _ _ run => keeps_run h run

/-- What declares nothing itself may be done before what declares one thing. -/
theorem whole_bind {x : Declaring α} {f : α → Declaring β} (first : Keeps Untouched x)
    (rest : ∀ a, IsWhole (f a)) : IsWhole (x >>= f) := by
  intro w w' fault h
  rcases bind_eq_error h with h | ⟨a, u, ran, h⟩
  · exact keeps_run first h
  · exact IsTrans.trans _ _ _ (keeps_run first ran) (rest a _ _ _ h)

theorem whole_ite {c : Prop} [Decidable c] {x y : Declaring α} (hx : IsWhole x) (hy : IsWhole y) :
    IsWhole (if c then x else y) := by
  split
  · exact hx
  · exact hy

/-- A check, before what declares one thing. -/
theorem whole_guard {c : Prop} [Decidable c] {f : Fault} {x : PUnit → Declaring α}
    (rest : IsWhole (x ⟨⟩)) : IsWhole (if c then throw f >>= x else x ⟨⟩) :=
  whole_ite (whole_of_keeps (keeps_throw f)) rest

/-- A change to the schema after which nothing can fail. -/
theorem whole_update (g : Schema → Schema) (a : α) :
    IsWhole (do
      update g
      return a) := by
  intro w w' f h
  rw [runOn_bind_ok (runOn_update g w)] at h
  cases h

theorem untouched_ensureOpen (change : Change) : Keeps Untouched (ensureOpen change) := by
  intro w
  rw [runOn_ensureOpen]
  exact Std.Refl.refl w

theorem untouched_making (x : World → Making α) : Keeps Untouched (making x) := by
  intro w
  rw [runOn_making]
  exact ⟨_, rfl⟩

/-! ## One declaration -/

theorem whole_addType (host : HostType) (name : Option String) (description : String) :
    IsWhole (addType host name description) := by
  refine whole_bind (untouched_ensureOpen _) fun _ => whole_bind keeps_schema fun s => ?_
  refine whole_guard ?_
  simp only []
  split
  · exact whole_of_keeps (keeps_throw _)
  · exact whole_update _ _

theorem whole_declareQuery (q : QueryDecl) : IsWhole (declareQuery q) := by
  refine whole_bind (untouched_ensureOpen _) fun _ => whole_bind keeps_schema fun s => ?_
  exact whole_guard (whole_guard (whole_update _ _))

theorem whole_addQuery (mode : Mode) (name : String) (host : HostType) (function : Value)
    (description : String) : IsWhole (addQuery mode name host function description) := by
  refine whole_bind (untouched_ensureOpen _) fun _ => whole_bind (untouched_making _) fun e => ?_
  exact whole_declareQuery _

theorem whole_addScalar (kind : WireKind) (translate : Value) (name : Option String)
    (host : Option HostType) (description : String) :
    IsWhole (addScalar kind translate name host description) := by
  refine whole_bind (untouched_ensureOpen _) fun _ => ?_
  intro w w' f h
  rw [runOn_registering] at h
  obtain ⟨_, refused⟩ | ⟨e, _, added⟩ :=
    runOn_addNew kind translate name host description w.schema.scalars
  · rw [refused] at h
    cases h
    exact Std.Refl.refl w
  · rw [added] at h
    cases h

theorem whole_insertField (i : Nat) (f : FieldDecl) : IsWhole (insertField i f) := by
  refine whole_bind (untouched_ensureOpen _) fun _ => whole_bind (keeps_typeAt i) fun t => ?_
  exact whole_guard (whole_update _ _)

theorem whole_addField (owner : HostType) (name : String) (function : Value)
    (host : Option HostType) (isList : Bool) (description : String) :
    IsWhole (addField owner name function host isList description) := by
  refine whole_bind (keeps_getType owner) fun i => whole_bind (untouched_ensureOpen _) fun _ => ?_
  refine whole_bind (keeps_typeAt i) fun t => whole_bind (untouched_making _) fun e => ?_
  exact whole_bind keeps_get fun w => whole_insertField i _

theorem whole_insertMember (i : Nat) (member description : String) :
    IsWhole (insertMember i member description) := by
  refine whole_bind (keeps_typeAt i) fun t => whole_bind (untouched_making _) fun e => ?_
  exact whole_bind keeps_get fun w => whole_insertField i _

theorem whole_addPropertyField (owner : HostType) (selector : Value) (description : String) :
    IsWhole (addPropertyField owner selector description) := by
  refine whole_bind (keeps_getType owner) fun i => whole_bind (untouched_ensureOpen _) fun _ => ?_
  refine whole_bind (keeps_typeAt i) fun t => whole_bind (untouched_making _) fun member => ?_
  exact whole_insertMember i member description

/-! ## One declaration for each member -/

/-- The field that reads a member of the entities of a type, with an entity of this number. -/
def reader (classes : Classes) (context : Param) (owner : HostType) (typeName member : String)
    (number : Nat) : FieldDecl :=
  let entity : Param := ⟨number, entityName typeName⟩
  { memberField classes owner member "" with
    source := .fixed (.lambda [context, entity] (.member (.param entity) member)) }

end Schema

namespace World

/-- The fields that read members of the type at a place, with entities of the next numbers. -/
def readers (w : World) (i : Nat) (members : List String) : List FieldDecl :=
  (members.zipIdx (w.schema.supply + 1)).map fun (member, number) =>
    Schema.reader w.classes w.schema.context (w.typeAt i).host (w.typeAt i).name member number

/-- A world in which the type at a place has more fields. -/
def withFields (w : World) (i : Nat) (fs : List FieldDecl) : World :=
  w.changeType i fun t => { t with fields := t.fields ++ fs }

variable {w : World} {i : Nat}

theorem typeAt_withFields (found : i < w.schema.types.length) (fs : List FieldDecl) :
    (w.withFields i fs).typeAt i = { w.typeAt i with fields := (w.typeAt i).fields ++ fs } := by
  unfold typeAt withFields changeType withSchema
  simp [List.getD_eq_getElem?_getD, found]

theorem withFields_nil : w.withFields i [] = w := by
  have same : (fun t : TypeDecl => { t with fields := t.fields ++ [] }) = id := by
    funext t
    simp
  unfold withFields changeType withSchema
  simp only [same, List.modify_id]

/-- Fields that are declared one after the other are declared in this order. -/
theorem withFields_append (fs gs : List FieldDecl) :
    (w.withFields i fs).withFields i gs = w.withFields i (fs ++ gs) := by
  unfold withFields changeType withSchema
  simp only [List.modify_modify_eq]
  congr 3
  funext t
  simp

/-- Fields that were declared and the number that was used leave the next members to be read alike. -/
theorem readers_cons (found : i < w.schema.types.length) (member : String) (members : List String)
    (fs : List FieldDecl) :
    w.readers i (member :: members)
      = Schema.reader w.classes w.schema.context (w.typeAt i).host (w.typeAt i).name member
          (w.schema.supply + 1)
        :: ((w.numbered (w.schema.supply + 1)).withFields i fs).readers i members := by
  unfold readers
  rw [typeAt_withFields (w := w.numbered (w.schema.supply + 1)) found]
  rfl

end World

namespace Schema

open Declaring

variable {w : World} {i : Nat}

theorem insertField_error {f : FieldDecl} {fault : Fault} {w' : World}
    (isOpen : w.schema.completed = false) (h : runOn (insertField i f) w = (.error fault, w')) :
    f.name ∈ (w.typeAt i).fields.map (·.name) ∧ fault = .fieldExists f.name (w.typeAt i).name
      ∧ w' = w := by
  rw [insertField, runOn_ensureOpen_bind isOpen, runOn_bind_ok (runOn_typeAt i w)] at h
  cases found : (w.typeAt i).findField? f.name with
  | none =>
    rw [found] at h
    cases h
  | some g =>
    rw [found] at h
    cases h
    have named := List.find?_some found
    refine ⟨List.mem_map.2 ⟨g, List.mem_of_find?_eq_some found, ?_⟩, rfl, rfl⟩
    simpa using named

/-- A member is declared after a number was used for the entity. -/
theorem runOn_insertMember (member : String) :
    runOn (insertMember i member "") w
      = runOn (insertField i (reader w.classes w.schema.context (w.typeAt i).host (w.typeAt i).name
          member (w.schema.supply + 1))) (w.numbered (w.schema.supply + 1)) := rfl

/-- Members are declared one after the other, and the first one whose name is taken is refused. What
was declared until then stays. -/
theorem insertMembers_refused {members : List String} {f : Fault} {w' : World}
    (found : i < w.schema.types.length) (isOpen : w.schema.completed = false)
    (h : runOn (members.mapM fun member => insertMember i member "") w = (.error f, w')) :
    ∃ passed member left, members = passed ++ member :: left
      ∧ f = .fieldExists (Text.camelCase member) (w.typeAt i).name
      ∧ Text.camelCase member
          ∈ (w.typeAt i).fields.map (·.name) ++ passed.map Text.camelCase
      ∧ w' = (w.withFields i (w.readers i passed)).numbered
          (w.schema.supply + passed.length + 1) := by
  induction members generalizing w with
  | nil =>
    rw [List.mapM_nil] at h
    cases h
  | cons member members ih =>
    rw [List.mapM_cons] at h
    let made := w.numbered (w.schema.supply + 1)
    -- Either this member is refused, or a later one, in a world where this one has its field.
    rcases bind_eq_error h with refused | ⟨g, v, inserted, h⟩
    · rw [runOn_insertMember] at refused
      obtain ⟨taken, rfl, rfl⟩ := insertField_error (w := made) isOpen refused
      refine ⟨[], member, members, rfl, rfl, ?_, ?_⟩
      · rw [List.map_nil, List.append_nil]
        exact taken
      · exact (congrArg (World.numbered · _) World.withFields_nil).symm
    · rw [runOn_insertMember] at inserted
      obtain ⟨is, rfl⟩ := insertField_ok inserted
      rw [← is] at h
      let first := made.withFields i [g]
      have has : first.typeAt i = _ := World.typeAt_withFields (w := made) found [g]
      have placed : i < first.schema.types.length := by
        simpa [first, made, World.withFields, World.changeType, World.withSchema, World.numbered]
          using found
      rcases bind_eq_error h with later | ⟨_, _, _, h⟩
      · obtain ⟨passed, next, left, rfl, rfl, taken, rfl⟩ := ih (w := first) placed isOpen later
        refine ⟨member :: passed, next, left, rfl, ?_, ?_, ?_⟩
        · rw [has]
          rfl
        · have named : g.name = Text.camelCase member := congrArg FieldDecl.name is
          rw [has, List.map_append, List.append_assoc, List.map_singleton, named] at taken
          exact taken
        · have count : w.schema.supply + 1 + passed.length + 1
              = w.schema.supply + (member :: passed).length + 1 := by
            rw [List.length_cons]
            omega
          rw [World.readers_cons found member passed [g], ← is, ← count, World.withFields_append]
          rfl
      · cases h

theorem addAllFields_refused {owner : HostType} {f : Fault} {w' : World}
    (h : runOn (addAllFields owner) w = (.error f, w')) :
    w' = w ∨ ∃ i passed member left, w.schema.findType? owner = some i
      ∧ w.schema.completed = false
      ∧ w.classes.publicNames owner = passed ++ member :: left
      ∧ f = .fieldExists (Text.camelCase member) (w.typeAt i).name
      ∧ Text.camelCase member
          ∈ (w.typeAt i).fields.map (·.name) ++ passed.map Text.camelCase
      ∧ w' = (w.withFields i (w.readers i passed)).numbered
          (w.schema.supply + passed.length + 1) := by
  unfold addAllFields at h
  cases found : w.schema.findType? owner with
  | none =>
    rw [runOn_bind_error (runOn_getType_none found)] at h
    cases h
    exact .inl rfl
  | some i =>
    rw [runOn_bind_ok (runOn_getType found)] at h
    cases isOpen : w.schema.completed with
    | true =>
      rw [runOn_bind, runOn_ensureOpen, isOpen] at h
      cases h
      exact .inl rfl
    | false =>
      rw [runOn_ensureOpen_bind isOpen, runOn_bind_ok (runOn_get w)] at h
      obtain ⟨placed, _⟩ := List.findIdx?_eq_some_iff_getElem.1 found
      obtain ⟨passed, member, left, names, rest⟩ := insertMembers_refused placed isOpen h
      exact .inr ⟨i, passed, member, left, rfl, rfl, names, rest⟩

end Schema

namespace Session

open Schema

/-- What declares one thing leaves the schema as it was if it is refused. -/
theorem unchanged_of_whole {α β : Type} {x : Declaring α} {g : α → β} {s s' : Session} {f : Fault}
    (whole : IsWhole x) (h : runOn (g <$> declaring x) s = (.error f, s')) :
    s'.world.schema = { s.world.schema with supply := s'.world.schema.supply } := by
  rw [runOn_map, runOn_declaring] at h
  generalize ran : runOn x s.world = out at h
  obtain ⟨r, w'⟩ := out
  cases r with
  | ok a => cases h
  | error e =>
    cases h
    exact (whole _ _ _ ran).schema

/-- A class of people in the examples, two members of which have one name in camel case. -/
def peopleClass : ClassDecl :=
  { name := "Person", kind := .record, bases := []
    members := [⟨"age", .type (.builtin .int), none, false⟩,
      ⟨"first_name", .type (.builtin .str), none, false⟩,
      ⟨"firstName", .type (.builtin .str), none, false⟩]
    properties := [], methods := [], columns := [], relationships := [] }

/-- A schema with a type for people, without fields. -/
def peopleSession : Session :=
  (start { (default : World) with classes := [peopleClass] } ⟨0, "context"⟩ 1).after
    [.addType (.declared "Person") none ""]

end Session

end EntityGraph
