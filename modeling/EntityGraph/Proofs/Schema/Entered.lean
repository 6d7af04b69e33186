import EntityGraph.Proofs.Schema.Outline

/-!
# What declarations enter

A declaration enters a few entries into a schema. It succeeds exactly if the schema can take them,
one after the other, and this depends on the entries that are there already, in whatever order they
came. Here this is shown of everything by which a schema is made to describe itself.
-/

namespace EntityGraph

/-! ## Taking entries -/

/-- Whether one more entry can be taken where there are some: no entry of its kind has its name, nor
has a type its host type, and the type of a field is there. -/
def Takes (H : Entry → Prop) : Entry → Prop
  | .type head => ∀ t, H (.type t) → t.host ≠ head.host ∧ t.name ≠ head.name
  | .field owner f =>
    (∃ t, H (.type t) ∧ t.host = owner) ∧ ∀ g, H (.field owner g) → g.name ≠ f.name
  | .query q => ∀ p, H (.query p) → p.name ≠ q.name

/-- Whether entries can be taken one after the other. -/
def TakesAll (H : Entry → Prop) : List Entry → Prop
  | [] => True
  | x :: xs => Takes H x ∧ TakesAll (fun y => H y ∨ y = x) xs

theorem takesAll_append {H : Entry → Prop} {xs ys : List Entry} :
    TakesAll H (xs ++ ys) ↔ TakesAll H xs ∧ TakesAll (fun y => H y ∨ y ∈ xs) ys := by
  induction xs generalizing H with
  | nil => simp [TakesAll]
  | cons x xs ih =>
    rw [List.cons_append, TakesAll, ih, TakesAll, and_assoc]
    simp only [List.mem_cons, or_assoc]

/-- Fields of different types do not stand in each other's way. -/
theorem takesAll_fields {α : Type} {H : Entry → Prop} {owner : α → HostType} {f : α → FieldDecl}
    {xs : List α} (each : ∀ x ∈ xs, Takes H (.field (owner x) (f x)))
    (apart : (xs.map owner).Nodup) : TakesAll H (xs.map fun x => .field (owner x) (f x)) := by
  induction xs generalizing H with
  | nil => trivial
  | cons x xs ih =>
    rw [List.map_cons, List.nodup_cons] at apart
    refine ⟨each x (by simp), ih (fun y hy => ?_) apart.2⟩
    obtain ⟨⟨t, ht, host⟩, free⟩ := each y (by simp [hy])
    refine ⟨⟨t, .inl ht, host⟩, fun g hg => ?_⟩
    rcases hg with hg | same
    · exact free g hg
    · have host : owner y = owner x := (Entry.field.inj same).1
      exact absurd (host ▸ List.mem_map_of_mem hy) apart.1

/-- Whether a schema takes declarations, and each of its types is found. -/
structure Ready (w : World) : Prop where
  isOpen : w.schema.completed = false
  types : Orderly w.schema.types

/-- Worlds of which the second one is ready as well, with these entries beside those of the first. -/
structure Entered (w : World) (xs : List Entry) (u : World) : Prop where
  entries : Schema.HasMore w.schema u.schema xs
  ready : Ready u
  scalars : u.schema.scalars = w.schema.scalars
  reserved : u.schema.allowsReserved = w.schema.allowsReserved
  classes : u.classes = w.classes
  places : ∀ host i, w.schema.findType? host = some i → u.schema.findType? host = some i

theorem Entered.has {w u : World} {xs : List Entry} (h : Entered w xs u) :
    u.schema.Has = fun y => w.schema.Has y ∨ y ∈ xs :=
  funext fun y => propext (h.entries y)

theorem Entered.trans {w v u : World} {xs ys : List Entry} (first : Entered w xs v)
    (second : Entered v ys u) : Entered w (xs ++ ys) u where
  entries y := by rw [second.entries, first.entries, List.mem_append, or_assoc]
  ready := second.ready
  scalars := second.scalars.trans first.scalars
  reserved := second.reserved.trans first.reserved
  classes := second.classes.trans first.classes
  places host i found := second.places host i (first.places host i found)

/-- What is made on the way leaves all declarations as they are. -/
theorem entered_following {w : World} (ready : Ready w) (t : Trail) :
    Entered w [] (w.following t) where
  entries y := Iff.trans (b := w.schema.Has y) (Schema.has_congr rfl rfl y) (by simp)
  ready := ⟨ready.isOpen, ready.types⟩
  scalars := rfl
  reserved := rfl
  classes := rfl
  places _ _ found := found

theorem Entered.refl {w : World} (ready : Ready w) : Entered w [] w :=
  entered_following ready w.trail

/-- Whether a declaration enters these entries, exactly if they can be taken. -/
structure Enters {α : Type} (w : World) (xs : List Entry) (x : Declaring α) : Prop where
  entered : ∀ a u, runOn x w = (.ok a, u) → Entered w xs u ∧ TakesAll w.schema.Has xs
  succeeds : TakesAll w.schema.Has xs → ∃ a u, runOn x w = (.ok a, u)

section

variable {α β : Type} {w : World} {xs ys : List Entry} {x : Declaring α}

theorem Enters.bind {f : α → Declaring β} (first : Enters w xs x)
    (rest : ∀ a u, runOn x w = (.ok a, u) → Entered w xs u → Enters u ys (f a)) :
    Enters w (xs ++ ys) (x >>= f) := by
  constructor
  · intro b u h
    obtain ⟨a, v, before, after⟩ := bind_eq_ok h
    obtain ⟨entered, taken⟩ := first.entered a v before
    obtain ⟨entered', taken'⟩ := (rest a v before entered).entered b u after
    refine ⟨entered.trans entered', takesAll_append.2 ⟨taken, ?_⟩⟩
    rw [← entered.has]
    exact taken'
  · intro taken
    rw [takesAll_append] at taken
    obtain ⟨a, v, before⟩ := first.succeeds taken.1
    obtain ⟨entered, _⟩ := first.entered a v before
    have later := taken.2
    rw [← entered.has] at later
    obtain ⟨b, u, after⟩ := (rest a v before entered).succeeds later
    exact ⟨b, u, by rw [runOn_bind_ok before, after]⟩

/-- What succeeds without entering anything goes on from where it ends. -/
theorem Enters.after {f : α → Declaring β} {a : α} {v : World} (run : runOn x w = (.ok a, v))
    (quiet : Entered w [] v) (rest : Enters v xs (f a)) : Enters w xs (x >>= f) := by
  have first : Enters w [] x := by
    refine ⟨fun b u h => ?_, fun _ => ⟨a, v, run⟩⟩
    rw [run] at h
    cases h
    exact ⟨quiet, trivial⟩
  refine first.bind fun b u h _ => ?_
  rw [run] at h
  cases h
  exact rest

theorem enters_of_run {a : α} {u : World} (run : runOn x w = (.ok a, u)) (entered : Entered w xs u)
    (taken : TakesAll w.schema.Has xs) : Enters w xs x := by
  refine ⟨fun b v h => ?_, fun _ => ⟨a, u, run⟩⟩
  rw [run] at h
  cases h
  exact ⟨entered, taken⟩

theorem enters_throw {f : Fault} (refused : ¬ TakesAll w.schema.Has xs) :
    Enters w xs (throw f : Declaring α) :=
  ⟨fun _ _ => nofun, fun taken => absurd taken refused⟩

/-- What is refused only if the entries cannot be taken, and goes on else. -/
theorem Enters.guard {c : Prop} [Decidable c] {fault : Fault} {f : PUnit → Declaring α}
    (refused : c → ¬ TakesAll w.schema.Has xs) (rest : ¬c → Enters w xs (f ⟨⟩)) :
    Enters w xs (if c then throw fault >>= f else f ⟨⟩) := by
  by_cases h : c
  · rw [if_pos h]
    exact enters_throw (refused h)
  · rw [if_neg h]
    exact rest h

/-- What is returned in the end enters nothing. -/
theorem Enters.done (h : Enters w xs x) (b : α → β) : Enters w xs (do return b (← x)) := by
  have both := h.bind fun a u _ entered =>
    enters_of_run (x := (pure (b a) : Declaring β)) rfl (.refl entered.ready) trivial
  rwa [List.append_nil] at both

end

namespace Schema

open Declaring

section

variable {w : World} {owner : HostType} {i : Nat}

theorem enters_getType {α : Type} {xs : List Entry} {f : Nat → Declaring α} (ready : Ready w)
    (found : w.schema.findType? owner = some i) (rest : Enters w xs (f i)) :
    Enters w xs (getType owner >>= f) :=
  rest.after (runOn_getType found) (.refl ready)

theorem runOn_open (ready : Ready w) (change : Change) :
    runOn (ensureOpen change) w = (.ok (), w) := by
  rw [runOn_ensureOpen, ready.isOpen]
  rfl

/-! ## Fields -/

/-- A found type is at its place. -/
theorem place_of_found (found : w.schema.findType? owner = some i) :
    w.schema.types[i]? = some (w.typeAt i) := by
  obtain ⟨bound, _⟩ := List.findIdx?_eq_some_iff_getElem.1 found
  rw [typeAt_of_getElem? (List.getElem?_eq_getElem bound), List.getElem?_eq_getElem bound]

/-- The fields of a type are all that is entered for its host type. -/
theorem has_field (types : Orderly w.schema.types) (found : w.schema.findType? owner = some i)
    (g : FieldDecl) :
    w.schema.Has (.field owner g) ↔ ∃ f ∈ (w.typeAt i).fields, f.outline = g := by
  have among := List.mem_of_getElem? (place_of_found found)
  constructor
  · rintro ⟨t, ht, host, declared⟩
    obtain rfl := List.inj_on_of_nodup_map types.hosts ht among
      (host.trans (World.typeAt_host found).symm)
    exact declared
  · exact fun declared => ⟨_, among, World.typeAt_host found, declared⟩

theorem takes_field (types : Orderly w.schema.types) (found : w.schema.findType? owner = some i)
    (f : FieldDecl) :
    Takes w.schema.Has (.field owner f.outline) ↔ (w.typeAt i).findField? f.name = none := by
  rw [TypeDecl.findField?, List.find?_eq_none]
  constructor
  · rintro ⟨_, free⟩ g hg same
    exact free g.outline ((has_field types found _).2 ⟨g, hg, rfl⟩) (beq_iff_eq.1 same)
  · intro free
    refine ⟨⟨(w.typeAt i).head, ⟨_, List.mem_of_getElem? (place_of_found found), rfl⟩,
      World.typeAt_host found⟩, fun g hg same => ?_⟩
    obtain ⟨g', hg', rfl⟩ := (has_field types found _).1 hg
    exact free g' hg' (beq_iff_eq.2 same)

theorem runOn_insertField {f : FieldDecl} (isOpen : w.schema.completed = false)
    (free : (w.typeAt i).findField? f.name = none) :
    runOn (insertField i f) w = (.ok f, w.withField i f) := by
  refine (runOn_ensureOpen_bind isOpen).trans ?_
  rw [runOn_bind_ok (runOn_typeAt i w), free]
  rfl

theorem insertField_free {f g : FieldDecl} {u : World}
    (h : runOn (insertField i f) w = (.ok g, u)) : (w.typeAt i).findField? f.name = none := by
  obtain ⟨_, h⟩ := ensureOpen_ok h
  rw [runOn_bind_ok (runOn_typeAt i w)] at h
  split at h
  · cases h
  · next free => simpa using free

theorem enters_insertField (ready : Ready w) (found : w.schema.findType? owner = some i)
    (f : FieldDecl) : Enters w [.field owner f.outline] (insertField i f) := by
  have taken := takes_field ready.types found f
  constructor
  · intro g u h
    obtain ⟨_, rfl⟩ := insertField_ok h
    have more := hasMore_field (place_of_found found) f
    rw [World.typeAt_host found] at more
    refine ⟨⟨more, ⟨ready.isOpen, ready.types.modify i (fun _ => rfl) fun _ => rfl⟩, rfl, rfl,
      rfl, fun host j at_j => (World.findType?_withField w i f host).trans at_j⟩, ?_, trivial⟩
    exact taken.2 (insertField_free h)
  · rintro ⟨free, _⟩
    exact ⟨f, _, runOn_insertField ready.isOpen (taken.1 free)⟩

/-- A field that is computed from an entity, without its function. What is not given of its type is
as it was found. -/
def computedField (name description : String) (host : Option HostType) (isList : Bool)
    (found : MemberType) : FieldDecl :=
  { name, description, host := host.getD found.host, isList := isList || (host.isNone && found.isList)
    shape := .none, source := .fixed (.lit .none) }

/-- The field that reads a member of an entity, without its function. -/
def memberField (classes : Classes) (owner : HostType) (member description : String) : FieldDecl :=
  computedField (Text.camelCase member) description none false (classes.memberType owner member)

theorem enters_insertMember (ready : Ready w) (found : w.schema.findType? owner = some i)
    (member description : String) :
    Enters w [.field owner (memberField w.classes owner member description)]
      (insertMember i member description) := by
  refine Enters.after (runOn_typeAt i w) (.refl ready) ?_
  refine Enters.after rfl (entered_following ready _) ?_
  refine Enters.after (runOn_get _) (.refl ⟨ready.isOpen, ready.types⟩) ?_
  rw [World.typeAt_host found]
  exact enters_insertField (w := w.following _) ⟨ready.isOpen, ready.types⟩ found
    { memberField w.classes owner member description with source := .fixed _ }

theorem enters_addField (ready : Ready w) (found : w.schema.findType? owner = some i)
    {function : Value} {e : Expr Value} {t : Trail}
    (captured : runOn (captureField w (w.typeAt i).name function) w.trail = (.ok e, t))
    (name : String) (host : Option HostType) (isList : Bool) (description : String) :
    Enters w
      [.field owner
        (computedField name description host isList (inferField (w.following t) owner e))]
      (addField owner name function host isList description) := by
  refine enters_getType ready found ?_
  refine Enters.after (runOn_open ready _) (.refl ready) ?_
  refine Enters.after (runOn_typeAt i w) (.refl ready) ?_
  refine Enters.after (a := e) (v := w.following t) ?_ (entered_following ready t) ?_
  · rw [runOn_making, show (captureField w _ function).runFrom w.trail = _ from captured]
  · refine Enters.after (runOn_get _) (.refl ⟨ready.isOpen, ready.types⟩) ?_
    exact enters_insertField (w := w.following t) ⟨ready.isOpen, ready.types⟩ found
      { computedField name description host isList (inferField (w.following t) owner e) with
        source := .fixed e }

theorem enters_addFieldWithArgs (ready : Ready w) (found : w.schema.findType? owner = some i)
    (name : String) (shape : ArgShape) (factory : Value) (host : Option HostType) (isList : Bool)
    (description : String) :
    Enters w
      [.field owner
        { name, description, host := host.getD (.builtin .object), isList, shape
          source := .factory .none }]
      (addFieldWithArgs owner name shape factory host isList description) :=
  enters_getType ready found (enters_insertField ready found
    { name, description, host := host.getD (.builtin .object), isList, shape
      source := .factory factory })

theorem enters_addPostField (ready : Ready w) (found : w.schema.findType? owner = some i)
    (name : String) (function : Value) (hint : Option Hint) (host : Option HostType)
    (description : String) :
    Enters w
      [.field owner
        { name, description, host := host.getD (hintedResult hint), isList := false, shape := .none
          source := .post .none }]
      (addPostField owner name function hint host description) :=
  enters_getType ready found (enters_insertField ready found
    { name, description, host := host.getD (hintedResult hint), isList := false, shape := .none
      source := .post function })

end

/-! ## Types and queries -/

section

variable {w : World}

theorem takes_type {head : TypeDecl} :
    Takes w.schema.Has (.type head)
      ↔ ∀ t ∈ w.schema.types, t.host ≠ head.host ∧ t.name ≠ head.name := by
  constructor
  · exact fun free t ht => free t.head ⟨t, ht, rfl⟩
  · rintro free _ ⟨t, ht, rfl⟩
    exact free t ht

theorem takes_query {q : QueryDecl} :
    Takes w.schema.Has (.query q.outline) ↔ w.schema.findQuery? q.name = none := by
  rw [findQuery?, List.find?_eq_none]
  constructor
  · exact fun free p hp same => free p.outline ⟨p, hp, rfl⟩ (beq_iff_eq.1 same)
  · rintro free _ ⟨p, hp, rfl⟩ same
    exact free p hp (beq_iff_eq.2 same)

theorem enters_addType (ready : Ready w) (host : HostType) (name : Option String)
    (description : String) :
    Enters w [.type (w.schema.newType host name description).head]
      (addType host name description) := by
  refine Enters.after (runOn_open ready _) (.refl ready) ?_
  refine Enters.after (runOn_schema w) (.refl ready) ?_
  refine Enters.guard (fun taken => ?_) fun free => ?_
  · rintro ⟨fresh, _⟩
    obtain ⟨t, ht, same⟩ := findType?_isSome.1 taken
    exact (takes_type.1 fresh t ht).1 same
  · have host_free : w.schema.findType? host = none := by simpa using free
    dsimp only
    split
    · next owner found =>
      refine enters_throw ?_
      have named := List.find?_some found
      rintro ⟨fresh, _⟩
      exact (takes_type.1 fresh owner (List.mem_of_find?_eq_some found)).2 (beq_iff_eq.1 named)
    · next unnamed =>
      have fresh : ∀ t ∈ w.schema.types, t.host ≠ host
          ∧ t.name ≠ (w.schema.newType host name description).name := by
        refine fun t ht => ⟨fun same => ?_, fun same => ?_⟩
        · exact free (findType?_isSome.2 ⟨t, ht, same⟩)
        · exact List.find?_eq_none.1 unnamed t ht (beq_iff_eq.2 same)
      refine enters_of_run (u := w.withType (w.schema.newType host name description)) rfl ?_
        ⟨takes_type.2 fresh, trivial⟩
      refine ⟨hasMore_type w rfl, ⟨ready.isOpen, ?_⟩, rfl, rfl, rfl, fun host i found => ?_⟩
      · exact ready.types.append (fun t ht => (fresh t ht).1) fun t ht => (fresh t ht).2
      · exact World.findType?_withType found _

theorem enters_declareQuery (ready : Ready w) {q : QueryDecl}
    (allowed : reservedQueries.contains q.name → w.schema.allowsReserved) :
    Enters w [.query q.outline] (declareQuery q) := by
  refine Enters.after (runOn_open ready _) (.refl ready) ?_
  refine Enters.after (runOn_schema w) (.refl ready) ?_
  refine Enters.guard (fun reserved => ?_) fun _ => Enters.guard (fun taken => ?_) fun free => ?_
  · rw [Bool.and_eq_true] at reserved
    simp [allowed reserved.1] at reserved
  · rintro ⟨fresh, _⟩
    rw [takes_query.1 fresh] at taken
    cases taken
  · have free : w.schema.findQuery? q.name = none := by simpa using free
    exact enters_of_run (u := w.withQuery q) rfl
      ⟨hasMore_query w q, ⟨ready.isOpen, ready.types⟩, rfl, rfl, rfl, fun _ _ found => found⟩
      ⟨takes_query.2 free, trivial⟩

end

end Schema

end EntityGraph
