import EntityGraph.Proofs.Schema.Consistent
import EntityGraph.Proofs.Schema.Reordered

/-!
# Declarations in another order

What a declaration enters into a schema depends on what was declared before in two ways only. Whether
a new type is a scalar is decided by the scalars that are there already. And where the type of a
field is left to a captured function, this function is called when the field is declared. So two
histories with the same declarations lead to the same schema, completed or refused alike, if every
type stands on the same side of the scalar for its host type in both of them, and if the functions
that are captured tell the same types.

A type that is declared before the scalar for its host type is no scalar, and it is one if it is
declared after it. Without the first of the two conditions the order decides whether the schema can
be completed.
-/

namespace EntityGraph

/-! ## What each declaration enters -/

namespace Event

/-- The scalar that an event adds, if it adds one. -/
def scalar? : Event → Option ScalarEntry
  | addScalar kind translate name host description =>
    (ScalarEntry.make kind translate name host description).toOption
  | _ => none

/-- The host type of the scalar that an event adds. -/
def scalarHost? (e : Event) : Option HostType := e.scalar?.map (·.host)

/-- The shape of the arguments that an event declares. -/
def shape? : Event → Option ArgShape
  | addQueryWithArgs _ _ _ shape _ _ | addFieldWithArgs _ _ shape _ _ _ _ => some shape
  | _ => none

/-- Whether an event declares a field of which a captured function tells the type. -/
def infers : Event → Bool
  | addField _ _ _ none _ _ | addPropertyField .. => true
  | _ => false

/-- What a declaration enters into the schema of a world, if a captured function tells this name and
type of a field. -/
def entries (w : World) (told : String × MemberType) : Event → List Entry
  | addType host name description => [.type (w.schema.newType host name description).head]
  | addQuery mode name host _ description =>
    [.query { name, description, host, shape := .none, mode, source := .fixed (.lit .none) }]
  | addQueryWithArgs mode name host shape _ description =>
    [.query { name, description, host, shape, mode, source := .factory .none }]
  | addField owner name _ host isList description =>
    [.field owner (Schema.computedField name description host isList told.2)]
  | addFieldWithArgs owner name shape _ host isList description =>
    [.field owner
      { name, description, host := host.getD (.builtin .object), isList, shape
        source := .factory .none }]
  | addPropertyField owner _ description =>
    [.field owner (Schema.computedField told.1 description none false told.2)]
  | addAllFields owner =>
    (w.classes.publicNames owner).map fun member =>
      .field owner (Schema.memberField w.classes owner member "")
  | addPostField owner name _ hint host description =>
    [.field owner
      { name, description, host := host.getD (Schema.hintedResult hint), isList := false
        shape := .none, source := .post .none }]
  | _ => []

theorem entries_shape {w : World} {told : String × MemberType} {e : Event} {x : Entry}
    {shape : ArgShape} (h : x ∈ e.entries w told) (is : x.shape? = some shape) :
    shape = .none ∨ e.shape? = some shape := by
  cases e with
  | addQueryWithArgs mode name host shape' factory description =>
    rw [List.mem_singleton.1 h] at is
    exact .inr is
  | addFieldWithArgs owner name shape' factory host isList description =>
    rw [List.mem_singleton.1 h] at is
    exact .inr is
  | addType host name description =>
    rw [List.mem_singleton.1 h] at is
    cases is
  | addAllFields owner =>
    obtain ⟨member, _, rfl⟩ := List.mem_map.1 h
    cases is
    exact .inl rfl
  | addQuery | addField | addPropertyField | addPostField =>
    rw [List.mem_singleton.1 h] at is
    cases is
    exact .inl rfl
  | _ => cases h

end Event

namespace Session

/-- The name and the type of the field that an event declares. -/
def told (s : Session) (e : Event) : String × MemberType :=
  match (runOn e.act s).1 with
  | .ok (.field f) => (f.name, ⟨f.host, f.isList⟩)
  | _ => ("", .unknown)

end Session

/-- Worlds of which the second one has the entries and the scalar of an event beside all that the
first one has. -/
structure Event.Advances (e : Event) (w : World) (told : String × MemberType) (u : World) : Prop where
  entries : Schema.HasMore w.schema u.schema (e.entries w told)
  ready : Ready u
  scalars : u.schema.scalars = w.schema.scalars ++ e.scalar?.toList
  classes : u.classes = w.classes

theorem Entered.advances {e : Event} {w u : World} {told : String × MemberType}
    (h : Entered w (e.entries w told) u) (plain : e.scalar? = none) : e.Advances w told u :=
  ⟨h.entries, h.ready, by rw [h.scalars, plain]; exact (List.append_nil _).symm, h.classes⟩

namespace Schema

open Declaring

variable {w u : World} {owner : HostType}

/-- What is given of the type of a field takes no second look at what was found. -/
theorem computedField_again (name description : String) (host : Option HostType) (isList : Bool)
    (found : MemberType) :
    let f := computedField name description host isList found
    computedField name description host isList ⟨f.host, f.isList⟩ = f := by
  unfold computedField
  cases host <;> cases isList <;> rfl

theorem addField_entered (ready : Ready w) {name description : String} {function : Value}
    {host : Option HostType} {isList : Bool} {f : FieldDecl}
    (h : runOn (addField owner name function host isList description) w = (.ok f, u)) :
    Entered w [.field owner (computedField name description host isList ⟨f.host, f.isList⟩)] u := by
  obtain ⟨i, v, got, rest⟩ := bind_eq_ok h
  obtain ⟨same, found⟩ := getType_found got
  rw [same, runOn_bind_ok (runOn_open ready _), runOn_bind_ok (runOn_typeAt i w)] at rest
  obtain ⟨e, _, made, rest⟩ := bind_eq_ok rest
  obtain ⟨t, captured, rfl⟩ := making_ok made
  rw [runOn_bind_ok (runOn_get _)] at rest
  have entered := (enters_addField ready found captured name host isList description).entered _ u h
  have again := computedField_again name description host isList (inferField (w.following t) owner e)
  rw [← again] at entered
  rw [(insertField_ok rest).1]
  exact entered.1

theorem insertMember_ok {i : Nat} {member description : String} {f : FieldDecl}
    (h : runOn (insertMember i member description) w = (.ok f, u)) :
    f.outline = memberField w.classes (w.typeAt i).host member description := by
  unfold insertMember at h
  rw [runOn_bind_ok (runOn_typeAt i w)] at h
  obtain ⟨e, _, made, h⟩ := bind_eq_ok h
  obtain ⟨t, _, rfl⟩ := making_ok made
  rw [runOn_bind_ok (runOn_get _)] at h
  rw [(insertField_ok h).1]
  rfl

theorem addPropertyField_entered (ready : Ready w) {selector : Value} {description : String}
    {f : FieldDecl} (h : runOn (addPropertyField owner selector description) w = (.ok f, u)) :
    Entered w [.field owner (computedField f.name description none false ⟨f.host, f.isList⟩)] u := by
  obtain ⟨i, _, got, rest⟩ := bind_eq_ok h
  obtain ⟨same, found⟩ := getType_found got
  rw [same, runOn_bind_ok (runOn_open ready _), runOn_bind_ok (runOn_typeAt i w)] at rest
  obtain ⟨member, _, made, rest⟩ := bind_eq_ok rest
  obtain ⟨t, _, rfl⟩ := making_ok made
  have quiet := entered_following ready t
  have entered := quiet.trans
    ((enters_insertMember quiet.ready found member description).entered _ u rest).1
  have outline := insertMember_ok rest
  rw [World.typeAt_host (w := w.following t) found] at outline
  show Entered w [.field owner (computedField f.outline.name description none false
    ⟨f.outline.host, f.outline.isList⟩)] u
  have again := computedField_again (Text.camelCase member) description none false
    ((w.following t).classes.memberType owner member)
  rw [outline]
  exact again.symm ▸ entered

/-- A list of members is entered one after the other. -/
theorem insertMembers_entered {i : Nat} {members : List String} {fs : List FieldDecl}
    (ready : Ready w) (found : w.schema.findType? owner = some i)
    (h : runOn (members.mapM fun member => insertMember i member "") w = (.ok fs, u)) :
    Entered w (members.map fun member => .field owner (memberField w.classes owner member "")) u := by
  induction members generalizing w fs with
  | nil =>
    rw [List.mapM_nil] at h
    cases h
    exact .refl ready
  | cons member members ih =>
    rw [List.mapM_cons] at h
    obtain ⟨f, v, first, h⟩ := bind_eq_ok h
    obtain ⟨fs', v', rest, h⟩ := bind_eq_ok h
    cases h
    have entered := ((enters_insertMember ready found member "").entered _ v first).1
    have others := ih entered.ready (entered.places _ _ found) rest
    rw [entered.classes] at others
    exact entered.trans others

theorem addAllFields_entered (ready : Ready w) {fs : List FieldDecl}
    (h : runOn (addAllFields owner) w = (.ok fs, u)) :
    Entered w ((w.classes.publicNames owner).map fun member =>
      .field owner (memberField w.classes owner member "")) u := by
  obtain ⟨i, _, got, rest⟩ := bind_eq_ok h
  obtain ⟨same, found⟩ := getType_found got
  rw [same, runOn_bind_ok (runOn_open ready _), runOn_bind_ok (runOn_get w)] at rest
  exact insertMembers_entered ready found rest

theorem addFieldWithArgs_entered (ready : Ready w) {name description : String} {shape : ArgShape}
    {factory : Value} {host : Option HostType} {isList : Bool} {f : FieldDecl}
    (h : runOn (addFieldWithArgs owner name shape factory host isList description) w = (.ok f, u)) :
    Entered w
      [.field owner
        { name, description, host := host.getD (.builtin .object), isList, shape
          source := .factory .none }] u := by
  obtain ⟨i, _, got, _⟩ := bind_eq_ok h
  obtain ⟨_, found⟩ := getType_found got
  exact ((enters_addFieldWithArgs ready found name shape factory host isList description).entered
    _ u h).1

theorem addPostField_entered (ready : Ready w) {name description : String} {function : Value}
    {hint : Option Hint} {host : Option HostType} {f : FieldDecl}
    (h : runOn (addPostField owner name function hint host description) w = (.ok f, u)) :
    Entered w
      [.field owner
        { name, description, host := host.getD (hintedResult hint), isList := false, shape := .none
          source := .post .none }] u := by
  obtain ⟨i, _, got, _⟩ := bind_eq_ok h
  obtain ⟨_, found⟩ := getType_found got
  exact ((enters_addPostField ready found name function hint host description).entered _ u h).1

theorem declareQuery_entered (ready : Ready w) {q q' : QueryDecl}
    (h : runOn (declareQuery q) w = (.ok q', u)) : Entered w [.query q.outline] u := by
  rw [declareQuery_ok h]
  exact ⟨hasMore_query w q, ⟨ready.isOpen, ready.types⟩, rfl, rfl, rfl, fun _ _ found => found⟩

theorem addQuery_entered (ready : Ready w) {mode : Mode} {name : String} {host : HostType}
    {function : Value} {description : String} {q : QueryDecl}
    (h : runOn (addQuery mode name host function description) w = (.ok q, u)) :
    Entered w [.query { name, description, host, shape := .none, mode, source := .fixed (.lit .none) }]
      u := by
  unfold addQuery at h
  rw [runOn_bind_ok (runOn_open ready _)] at h
  obtain ⟨e, _, made, h⟩ := bind_eq_ok h
  obtain ⟨t, _, rfl⟩ := making_ok made
  have quiet := entered_following ready t
  exact quiet.trans (declareQuery_entered quiet.ready h)

theorem addNew_ok {kind : WireKind} {translate : Value} {name : Option String}
    {host : Option HostType} {description : String} {e : ScalarEntry} {r r' : Registry}
    (h : runOn (Registry.addNew kind translate name host description) r = (.ok e, r')) :
    ScalarEntry.make kind translate name host description = .ok e ∧ r' = r ++ [e] := by
  constructor
  · unfold Registry.addNew at h
    obtain ⟨e', _, made, h⟩ := bind_eq_ok h
    obtain ⟨_, _, _, h⟩ := bind_eq_ok h
    cases h
    exact congrArg Prod.fst made
  · obtain ⟨f, refused⟩ | ⟨e', _, added⟩ :=
      runOn_addNew kind translate name host description r
    · rw [refused] at h
      cases h
    · rw [added] at h
      cases h
      rfl

/-- A scalar that is added comes after the others. -/
theorem addScalar_ok (ready : Ready w) {kind : WireKind} {translate : Value} {name : Option String}
    {host : Option HostType} {description : String} {e : ScalarEntry}
    (h : runOn (addScalar kind translate name host description) w = (.ok e, u)) :
    ScalarEntry.make kind translate name host description = .ok e ∧ u = w.withScalar e := by
  unfold addScalar at h
  rw [runOn_bind_ok (runOn_open ready _), runOn_registering, Prod.mk.injEq] at h
  obtain ⟨made, scalars⟩ := addNew_ok (Prod.ext h.1 rfl)
  refine ⟨made, h.2.symm.trans ?_⟩
  exact congrArg (fun r => w.withSchema fun s => { s with scalars := r }) scalars

end Schema

namespace Session

open Schema

/-- What is declared in a session is declared in its world. -/
theorem declaring_ok {α : Type} {x : Declaring α} {g : α → Answer} {s s' : Session} {a : Answer}
    (h : runOn (g <$> declaring x) s = (.ok a, s')) :
    ∃ b, runOn x s.world = (.ok b, s'.world) ∧ a = g b := by
  rw [runOn_map, runOn_declaring] at h
  generalize runOn x s.world = out at h
  obtain ⟨r, u⟩ := out
  cases r with
  | error f => cases h
  | ok b =>
    cases h
    exact ⟨b, rfl, rfl⟩

theorem told_of_ok {s s' : Session} {e : Event} {f : FieldDecl}
    (h : runOn e.act s = (.ok (.field f), s')) : s.told e = (f.name, ⟨f.host, f.isList⟩) := by
  unfold told
  rw [h]

/-- Every declaration that succeeds enters what it stands for. -/
theorem act_advances {s s' : Session} {e : Event} {a : Answer} (ready : Ready s.world)
    (declares : e.isDeclaration = true) (goes : e.isCompletion = false)
    (h : runOn e.act s = (.ok a, s')) : e.Advances s.world (s.told e) s'.world := by
  -- What was inferred for a field is not in the event, but in the answer to it.
  have toldIs {f : FieldDecl} (is : a = .field f) : s.told e = (f.name, ⟨f.host, f.isList⟩) :=
    told_of_ok (is ▸ h)
  cases e with
  | addType host name description =>
    obtain ⟨t, run, rfl⟩ := declaring_ok h
    exact ((enters_addType ready host name description).entered _ _ run).1.advances rfl
  | addQuery mode name host function description =>
    obtain ⟨q, run, rfl⟩ := declaring_ok h
    exact (addQuery_entered ready run).advances
      (e := .addQuery mode name host function description) rfl
  | addQueryWithArgs mode name host shape factory description =>
    obtain ⟨q, run, rfl⟩ := declaring_ok h
    exact (declareQuery_entered ready run).advances
      (e := .addQueryWithArgs mode name host shape factory description) rfl
  | addScalar kind translate name host description =>
    obtain ⟨entry, run, rfl⟩ := declaring_ok h
    obtain ⟨made, is⟩ := addScalar_ok ready run
    have added : (Event.addScalar kind translate name host description).scalar? = some entry :=
      congrArg Except.toOption made
    rw [is]
    refine ⟨fun x => ?_, ⟨ready.isOpen, ready.types⟩, by rw [added]; rfl, rfl⟩
    have same : (s.world.withScalar entry).schema.Has x ↔ s.world.schema.Has x :=
      has_congr rfl rfl x
    simpa [Event.entries] using same
  | addField owner name function host isList description =>
    obtain ⟨f, run, is⟩ := declaring_ok h
    rw [toldIs is]
    exact (addField_entered ready run).advances
      (e := .addField owner name function host isList description) rfl
  | addFieldWithArgs owner name shape factory host isList description =>
    obtain ⟨f, run, rfl⟩ := declaring_ok h
    exact (addFieldWithArgs_entered ready run).advances
      (e := .addFieldWithArgs owner name shape factory host isList description) rfl
  | addPropertyField owner selector description =>
    obtain ⟨f, run, is⟩ := declaring_ok h
    rw [toldIs is]
    exact (addPropertyField_entered ready run).advances
      (e := .addPropertyField owner selector description) rfl
  | addAllFields owner =>
    obtain ⟨fs, run, rfl⟩ := declaring_ok h
    exact (addAllFields_entered ready run).advances (e := .addAllFields owner) rfl
  | addPostField owner name function hint host description =>
    obtain ⟨f, run, rfl⟩ := declaring_ok h
    exact (addPostField_entered ready run).advances
      (e := .addPostField owner name function hint host description) rfl
  | complete => cases goes
  | _ => cases declares

/-! ## What a history enters -/

/-- What the event at a place of a history enters. -/
def enteredAt (s : Session) (es : List Event) (i : Nat) (e : Event) : List Entry :=
  let before := s.after (es.take i)
  e.entries before.world (before.told e)

/-- What a history of declarations comes to. -/
structure Gathers (s : Session) (es : List Event) : Prop where
  ready : Ready (s.after es).world
  classes : (s.after es).world.classes = s.world.classes
  scalars : (s.after es).world.schema.scalars = s.world.schema.scalars ++ es.filterMap Event.scalar?
  entries : ∀ x, (s.after es).world.schema.Has x
    ↔ s.world.schema.Has x ∨ ∃ i e, es[i]? = some e ∧ x ∈ s.enteredAt es i e

/-- Whether every one of these events declares something, and is accepted in its turn. -/
structure Accepts (s : Session) (es : List Event) : Prop where
  declare : ∀ e ∈ es, e.isDeclaration = true ∧ e.isCompletion = false
  accepted : ∀ r ∈ s.replies es, r.isOk = true

theorem Accepts.cons {s : Session} {e : Event} {es : List Event} (h : s.Accepts (e :: es)) :
    (∃ a, runOn e.act s = (.ok a, (runOn e.act s).2)) ∧ (runOn e.act s).2.Accepts es := by
  have first := h.accepted _ List.mem_cons_self
  refine ⟨?_, fun e' he' => h.declare e' (by simp [he']),
    fun r hr => h.accepted r (by simp [replies, hr])⟩
  cases out : (runOn e.act s).1 with
  | error f =>
    rw [out] at first
    cases first
  | ok a => exact ⟨a, Prod.ext out rfl⟩

theorem Accepts.take {s : Session} {es : List Event} (h : s.Accepts es) (i : Nat) :
    s.Accepts (es.take i) := by
  induction es generalizing s i with
  | nil => simpa using h
  | cons e es ih =>
    cases i with
    | zero => exact ⟨by simp, by simp [replies]⟩
    | succ i =>
      have rest := ih h.cons.2 i
      rw [List.take_succ_cons]
      constructor
      · rw [List.forall_mem_cons]
        exact ⟨h.declare e (by simp), rest.declare⟩
      · rw [replies, List.forall_mem_cons]
        exact ⟨h.accepted _ List.mem_cons_self, rest.accepted⟩

/-- What a history comes to, one event after the other. -/
theorem Accepts.gathers {s : Session} {es : List Event} (h : s.Accepts es) (ready : Ready s.world) :
    s.Gathers es := by
  induction es generalizing s with
  | nil => exact ⟨ready, rfl, (List.append_nil _).symm, fun x => by simp [after]⟩
  | cons e es ih =>
    obtain ⟨⟨a, run⟩, rest⟩ := h.cons
    obtain ⟨declares, goes⟩ := h.declare e (by simp)
    have step := act_advances ready declares goes run
    have later := ih rest step.ready
    refine ⟨later.ready, later.classes.trans step.classes, ?_, fun x => ?_⟩
    · show ((runOn e.act s).2.after es).world.schema.scalars = _
      rw [later.scalars, step.scalars, List.append_assoc]
      cases found : e.scalar? <;> simp [found]
    · refine Iff.trans (later.entries x) ?_
      rw [step.entries, or_assoc]
      refine or_congr Iff.rfl ⟨?_, ?_⟩
      · rintro (own | ⟨i, e', place, own⟩)
        · exact ⟨0, e, rfl, own⟩
        · exact ⟨i + 1, e', place, own⟩
      · rintro ⟨_ | i, e', place, own⟩
        · cases place
          exact .inl own
        · exact .inr ⟨i, e', place, own⟩

/-! ## Histories that agree -/

/-- Whether two histories of the same events give each of them the same to go by: the scalar for the
host type of a type is there in both or in neither, captured functions tell the same name and type of
a field, and the shapes of arguments describe the same in the end. -/
structure Agree (s : Session) (es es' : List Event) : Prop where
  sides : ∀ i j host name description, es[i]? = some (.addType host name description) →
    es'[j]? = some (.addType host name description) →
      (host ∈ (es.take i).filterMap Event.scalarHost?
        ↔ host ∈ (es'.take j).filterMap Event.scalarHost?)
  told : ∀ i j e, e.infers = true → es[i]? = some e → es'[j]? = some e →
    (s.after (es.take i)).told e = (s.after (es'.take j)).told e
  shapes : ∀ e ∈ es, ∀ shape, e.shape? = some shape →
    shape.types (s.after es).world = shape.types (s.after es').world

end Session

namespace Event

/-- Two worlds in which a declaration finds the same to go by get the same entries. -/
theorem entries_congr {w w' : World} {told told' : String × MemberType} (e : Event)
    (classes : w.classes = w'.classes)
    (scalar : ∀ host name description, e = .addType host name description →
      w.schema.isScalarHost host = w'.schema.isScalarHost host)
    (inferred : e.infers = true → told = told') : e.entries w told = e.entries w' told' := by
  cases e with
  | addType host name description =>
    have same : w.schema.newType host name description = w'.schema.newType host name description := by
      unfold Schema.newType
      rw [scalar host name description rfl]
    exact congrArg (fun t => [Entry.type t.head]) same
  | addField owner name function host isList description =>
    cases host with
    | none => rw [inferred rfl]; rfl
    | some host => rfl
  | addPropertyField owner selector description => rw [inferred rfl]; rfl
  | addAllFields owner =>
    exact congrArg (fun cs : Classes => (cs.publicNames owner).map fun member =>
      Entry.field owner (Schema.memberField cs owner member "")) classes
  | _ => rfl

end Event

theorem Schema.isScalarHost_iff (s : Schema) (host : HostType) :
    s.isScalarHost host = true ↔ host.isPrimitive = true ∨ host ∈ s.scalars.map (·.host) := by
  rw [isScalarHost_eq, Bool.or_eq_true, Registry.findHost?, List.find?_isSome]
  simp

/-- Of scalars with distinct host types, the same one is found for a host type in any order. -/
theorem Registry.findHost?_perm {r r' : Registry} (perm : r.Perm r')
    (distinct : (r.map (·.host)).Nodup) (host : HostType) : r.findHost? host = r'.findHost? host := by
  unfold findHost?
  cases found : r.find? (·.host == host) with
  | none =>
    rw [eq_comm, List.find?_eq_none]
    exact fun e he => List.find?_eq_none.1 found e (perm.mem_iff.2 he)
  | some e =>
    have is : e.host = host := by simpa using List.find?_some found
    have among := perm.mem_iff.1 (List.mem_of_find?_eq_some found)
    cases found' : r'.find? (·.host == host) with
    | none => exact absurd (beq_iff_eq.2 is) (List.find?_eq_none.1 found' e among)
    | some e' =>
      have is' : e'.host = host := by simpa using List.find?_some found'
      have both := (perm.map (·.host)).nodup_iff.1 distinct
      rw [List.inj_on_of_nodup_map both among (List.mem_of_find?_eq_some found') (is.trans is'.symm)]

/-- Schemas that declare the same, apart from functions and from the order of the declarations: the
same types, with the same names and of which the same ones are scalars, each with the same fields;
the same queries and the same scalars. The values of every host type have the same type. -/
structure Schema.SameDeclarations (s s' : Schema) : Prop where
  types : (s.types.map TypeDecl.head).Perm (s'.types.map TypeDecl.head)
  fields : ∀ t ∈ s.types, ∀ t' ∈ s'.types, t.host = t'.host →
    (t.fields.map FieldDecl.outline).Perm (t'.fields.map FieldDecl.outline)
  queries : (s.queries.map QueryDecl.outline).Perm (s'.queries.map QueryDecl.outline)
  scalars : s.scalars.Perm s'.scalars
  valueTypes : ∀ host, (s.typeOf host).head = (s'.typeOf host).head

theorem Distinct.outlines {t : TypeDecl} {s : Schema} (distinct : Distinct s) (ht : t ∈ s.types) :
    (t.fields.map FieldDecl.outline).Nodup := by
  refine .of_map FieldDecl.name ?_
  rw [List.map_map]
  exact distinct.fields t ht

theorem Distinct.heads {s : Schema} (distinct : Distinct s) : (s.types.map TypeDecl.head).Nodup := by
  refine .of_map TypeDecl.host ?_
  rw [List.map_map]
  exact distinct.types.hosts

theorem Distinct.queryOutlines {s : Schema} (distinct : Distinct s) :
    (s.queries.map QueryDecl.outline).Nodup := by
  refine .of_map QueryDecl.name ?_
  rw [List.map_map]
  exact distinct.queries

/-- Where nothing is declared twice, having the same entries is having the same declarations. -/
theorem Schema.Reordered.sameDeclarations {s s' : Schema} (same : s.Reordered s')
    (distinct : Distinct s) (distinct' : Distinct s') : s.SameDeclarations s' where
  types := (List.perm_ext_iff_of_nodup distinct.heads distinct'.heads).2 fun head => by
    rw [← has_type, ← has_type, same.entries]
  fields t ht t' ht' host := by
    obtain ⟨u, hu, twin⟩ := same.twin ht
    obtain rfl := List.inj_on_of_nodup_map distinct'.types.hosts ht' hu (host.symm.trans twin.host)
    exact (List.perm_ext_iff_of_nodup (distinct.outlines ht) (distinct'.outlines ht')).2 twin.fields
  queries := (List.perm_ext_iff_of_nodup distinct.queryOutlines distinct'.queryOutlines).2 fun q => by
    rw [List.mem_map, List.mem_map]
    exact same.entries (.query q)
  scalars := same.scalars
  valueTypes host := (same.typeOf host).head

namespace Session

variable {es es' : List Event} (v : World) (context : Param) (supply : Nat)

theorem ready_start : Ready (start v context supply).world := ⟨rfl, .nil, .nil⟩

/-- Histories that agree have the same entries. -/
theorem Agree.has (perm : es.Perm es') (accepts : (start v context supply).Accepts es)
    (accepts' : (start v context supply).Accepts es') (agree : (start v context supply).Agree es es')
    {x : Entry} (h : ((start v context supply).after es).world.schema.Has x) :
    ((start v context supply).after es').world.schema.Has x := by
  have ready := ready_start v context supply
  rw [(accepts.gathers ready).entries] at h
  rw [(accepts'.gathers ready).entries]
  rcases h with h | ⟨i, e, place, own⟩
  · exact .inl h
  · obtain ⟨j, place'⟩ := List.mem_iff_getElem?.1 (perm.mem_iff.1 (List.mem_of_getElem? place))
    refine .inr ⟨j, e, place', ?_⟩
    have before := (accepts.take i).gathers ready
    have before' := (accepts'.take j).gathers ready
    unfold enteredAt at own ⊢
    rw [← Event.entries_congr e (before.classes.trans before'.classes.symm) ?_
      fun inferred => agree.told i j e inferred place place']
    · exact own
    · rintro host name description rfl
      have sides := agree.sides i j host name description place place'
      rw [Bool.eq_iff_iff, Schema.isScalarHost_iff, Schema.isScalarHost_iff, before.scalars,
        before'.scalars, List.map_append, List.map_append, List.mem_append, List.mem_append,
        List.map_filterMap, List.map_filterMap]
      exact or_congr Iff.rfl (or_congr Iff.rfl sides)

/-- Histories that agree lead to counterparts. -/
theorem Agree.counterparts (perm : es.Perm es') (accepts : (start v context supply).Accepts es)
    (accepts' : (start v context supply).Accepts es')
    (distinct : (es.filterMap Event.scalarHost?).Nodup)
    (agree : (start v context supply).Agree es es') :
    ((start v context supply).after es).world.Counterparts
      ((start v context supply).after es').world := by
  have ready := ready_start v context supply
  have ends := accepts.gathers ready
  have ends' := accepts'.gathers ready
  have added : (es.filterMap Event.scalar?).Perm (es'.filterMap Event.scalar?) := perm.filterMap _
  have apart : ((es.filterMap Event.scalar?).map (·.host)).Nodup := by
    rw [List.map_filterMap]
    exact distinct
  have back : (start v context supply).Agree es' es := by
    refine ⟨fun i j host name description place place' => ?_, fun i j e infers place place' => ?_,
      fun e he shape is => ?_⟩
    · exact (agree.sides j i host name description place' place).symm
    · exact (agree.told j i e infers place' place).symm
    · exact (agree.shapes e (perm.mem_iff.2 he) shape is).symm
  refine ⟨⟨ends.ready.types, ends'.ready.types, fun x => ⟨?_, ?_⟩, ?_, fun host => ?_⟩,
    fun x shape has is => ?_⟩
  · exact agree.has v context supply perm accepts accepts'
  · exact back.has v context supply perm.symm accepts' accepts
  · rw [ends.scalars, ends'.scalars]
    exact added.append_left _
  · rw [ends.scalars, ends'.scalars, Registry.findHost?, Registry.findHost?, List.find?_append,
      List.find?_append]
    exact congrArg _ (Registry.findHost?_perm added apart host)
  · rcases (ends.entries x).1 has with none | ⟨i, e, place, own⟩
    · cases x <;> simp [Schema.Has, start, Schema.empty] at none
    · rcases Event.entries_shape own is with rfl | declared
      · rfl
      · exact agree.shapes e (List.mem_of_getElem? place) shape declared

/-- The order of declarations does not matter, as far as it leaves every type on the same side of the
scalar for its host type, and captured functions tell the same types. Let two histories of the same
declarations be accepted, with scalars for different host types. Then the one schema can be completed
if the other one can, and completed they declare the same. -/
theorem declarations_commute (v : World) (context : Param) (supply : Nat) (es es' : List Event)
    (perm : es.Perm es') (accepts : (start v context supply).Accepts es)
    (accepts' : (start v context supply).Accepts es')
    (distinct : (es.filterMap Event.scalarHost?).Nodup)
    (agree : (start v context supply).Agree es es') :
    let w := ((start v context supply).after es).world
    let w' := ((start v context supply).after es').world
    (runOn Schema.complete w).1.isOk = (runOn Schema.complete w').1.isOk
      ∧ ∀ u u', runOn Schema.complete w = (.ok (), u) → runOn Schema.complete w' = (.ok (), u') →
        u.schema.SameDeclarations u'.schema := by
  intro w w'
  have same : w.Counterparts w' := agree.counterparts v context supply perm accepts accepts' distinct
  have ready : Ready w := (accepts.gathers (ready_start v context supply)).ready
  have ready' : Ready w' := (accepts'.gathers (ready_start v context supply)).ready
  have reached : w.IsReached := ⟨v, context, supply, es, rfl⟩
  have reached' : w'.IsReached := ⟨v, context, supply, es', rfl⟩
  have completed {w u : World} (reached : w.IsReached) (h : runOn Schema.complete w = (.ok (), u)) :
      Distinct u.schema := by
    obtain ⟨_, v, settled, rfl⟩ := Schema.complete_ok h
    have distinct := Settles.distinct (keeps_run Schema.keeps_settle settled) reached.distinct
    exact ⟨distinct.types, distinct.fields, distinct.queries, distinct.scalars⟩
  refine ⟨?_, fun u u' h h' => ?_⟩
  · rw [Bool.eq_iff_iff, isOk_iff, isOk_iff]
    constructor
    · rintro ⟨_, u, h⟩
      obtain ⟨u', h', _⟩ := same.complete ready ready' (reached.unprojected ready.isOpen) h
      exact ⟨(), u', h'⟩
    · rintro ⟨_, u', h'⟩
      obtain ⟨u, h, _⟩ := same.symm.complete ready' ready (reached'.unprojected ready'.isOpen) h'
      exact ⟨(), u, h⟩
  · obtain ⟨u₂, h₂, ends⟩ := same.complete ready ready' (reached.unprojected ready.isOpen) h
    obtain rfl : u₂ = u' := congrArg Prod.snd (h₂.symm.trans h')
    exact ends.schema.sameDeclarations (completed reached h) (completed reached' h')

/-- The scalar in the examples. -/
def priceScalar : Event :=
  .addScalar .integer (.primitive .narrowInt) (some "Price") (some (.declared "Price")) ""

/-- The type of the values of the scalar in the examples. -/
def priceType : Event := .addType (.declared "Price") none ""

/-- Declarations of items, each of which has a price. -/
def items : List Event :=
  let itself : Value :=
    .ofTree (.lambda [⟨0, "context"⟩, ⟨7, "item"⟩] (.param ⟨7, "item"⟩))
  [.addType (.declared "Item") none "",
    .addField (.declared "Item") "itself" itself none false "",
    .addFieldWithArgs (.declared "Item") "price" (.defaults [(.str "count", .int 1)]) .none
      (some (.declared "Price")) false "",
    .addQuery .unmodified "item" (.declared "Item")
      (.ofTree (.lambda [⟨0, "context"⟩] (.param ⟨0, "context"⟩))) ""]

theorem items_agree : (start default ⟨0, "context"⟩ 1).Agree ([priceScalar, priceType] ++ items)
    (items ++ [priceScalar, priceType]) := by
  constructor
  · rintro (_ | _ | _ | _ | _ | _ | i) j host name description place place' <;> cases place
    all_goals
      rcases j with _ | _ | _ | _ | _ | _ | j <;> simp [priceScalar, priceType, items] at place'
    all_goals decide +kernel
  · rintro (_ | _ | _ | _ | _ | _ | i) j e infers place place' <;> cases place <;> cases infers
    rcases j with _ | _ | _ | _ | _ | _ | j <;> cases place'
    decide +kernel
  · intro e he shape is
    have plain (w w' : World) : (ArgShape.defaults [(.str "count", .int 1)]).types w
        = (ArgShape.defaults [(.str "count", .int 1)]).types w' := rfl
    simp only [List.cons_append, List.nil_append, items, List.mem_cons, List.not_mem_nil,
      or_false] at he
    rcases he with rfl | rfl | rfl | rfl | rfl | rfl <;> cases is
    exact plain _ _

/-- Items can be declared before prices or after them. -/
theorem items_commute :
    let s := start default ⟨0, "context"⟩ 1
    ∃ u u', runOn Schema.complete (s.after ([priceScalar, priceType] ++ items)).world = (.ok (), u)
      ∧ runOn Schema.complete (s.after (items ++ [priceScalar, priceType])).world = (.ok (), u')
      ∧ u.schema.SameDeclarations u'.schema := by
  intro s
  have accepts : s.Accepts ([priceScalar, priceType] ++ items) :=
    ⟨by decide +kernel, by decide +kernel⟩
  have accepts' : s.Accepts (items ++ [priceScalar, priceType]) :=
    ⟨by decide +kernel, by decide +kernel⟩
  obtain ⟨complete, declared⟩ := declarations_commute default ⟨0, "context"⟩ 1 _ _
    List.perm_append_comm accepts accepts' (by decide +kernel) items_agree
  have succeeds : (runOn Schema.complete (s.after ([priceScalar, priceType] ++ items)).world).1.isOk
      = true := by decide +kernel
  obtain ⟨_, u, h⟩ := isOk_iff.1 succeeds
  obtain ⟨_, u', h'⟩ := isOk_iff.1 (complete.symm.trans succeeds)
  exact ⟨u, u', h, h', declared u u' h h'⟩

/-- A type that is declared before the scalar for its host type is no scalar, so the same
declarations cannot be completed. -/
theorem scalar_after_type_refused :
    let s := start default ⟨0, "context"⟩ 1
    let query : Event := .addQuery .unmodified "price" (.declared "Price")
      (.ofTree (.lambda [⟨0, "context"⟩] (.lit .none))) ""
    let es := [priceScalar, priceType, query]
    let es' := [priceType, priceScalar, query]
    es.Perm es' ∧ s.Accepts es ∧ s.Accepts es' ∧ es.filterMap Event.scalarHost? = [.declared "Price"]
      ∧ (.declared "Price") ∉ Registry.standard.map (·.host)
      ∧ (runOn Schema.complete (s.after es).world).1.isOk = true
      ∧ (runOn Schema.complete (s.after es').world).1 = .error (.noFields "Price") := by
  intro s query es es'
  exact ⟨.swap .., ⟨by decide +kernel, by decide +kernel⟩, ⟨by decide +kernel, by decide +kernel⟩,
    by decide +kernel, by decide +kernel, by decide +kernel, by rfl⟩

end Session

end EntityGraph
