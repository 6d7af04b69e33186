import EntityGraph.Proofs.Request.Composed
import EntityGraph.Proofs.Request.Entries
import EntityGraph.Proofs.Schema.Reached
import EntityGraph.Proofs.Value.Records

/-!
# Records are readable by the names of their members

A record can be read like a dictionary and like an object: an entry is an item of it, and an
attribute. An item is looked for among the entries alone. An attribute is looked for in the class of
the record first, and the entries come last. So the two agree for every name that the class has no
attribute for; for the others an entry is there, but hidden.

What is under a name can only be what the class has a member for: a record is made of members, and
nothing but post members is set later.
-/

namespace EntityGraph

namespace Value

/-- The names of the attributes that every record class comes with. -/
def recordNames : List String :=
  [classLabel, dictLabel, moduleLabel, "__annotations__", "__doc__", "__hash__"] ++ recordDeclared
    ++ recordMethods

end Value

/-- Whether the class of the records of a type has an attribute: it came with it, or it was assigned
to the class. -/
def World.RecordsHave (w : World) (typeName name : String) : Prop :=
  name ∈ Value.recordNames ∨ (w.assigned? (.type (.record typeName)) name).isSome

namespace Value

variable {w : World} {typeName name : String} {es : List (String × Value)}

/-! ## Items and attributes -/

/-- The item of a record is its entry. -/
theorem readItem_record : readItem w (.record typeName es) (.str name)
    = (es.lookup name).elim (.error (.host .missingKey ((Value.str name).shown w))) .ok := by
  have found : entry? w (entriesOf es) (.str name) = .ok (es.lookup name) := by
    rw [entry?_entriesOf]
    congr 1
    induction es with
    | nil => rfl
    | cons e es ih =>
      rw [List.find?_cons, List.lookup_cons, Bool.beq_comm]
      cases name == e.1 with
      | true => rfl
      | false => exact ih
  change entry? w (entriesOf es) (.str name) >>= _ = _
  rw [found]
  cases es.lookup name <;> rfl

/-- The attribute of a record is what its class has, and its entry if the class has nothing. -/
theorem getAttr_record : getAttr w (.record typeName es) name
    = (((record typeName es).generalAttribute? w name).or
        ((recordAttribute? w typeName (.record typeName es) name).or (es.lookup name))).elim
      (.error (.recordAttribute typeName name)) .ok := by
  have unassigned : ((record typeName es).ref? w).bind (w.assigned? · name) = Option.none := rfl
  unfold getAttr valueAttribute
  simp only [unassigned]
  cases (record typeName es).generalAttribute? w name with
  | some v => rfl
  | none =>
    cases recordAttribute? w typeName (.record typeName es) name with
    | some v => rfl
    | none => cases es.lookup name <;> rfl

/-- A record class has nothing under any other name. -/
theorem attributes_absent (es : List (String × Value)) (other : ¬w.RecordsHave typeName name) :
    (record typeName es).generalAttribute? w name = Option.none ∧
      recordAttribute? w typeName (.record typeName es) name = Option.none := by
  obtain ⟨new, unassigned⟩ := not_or.1 other
  rw [Option.not_isSome_iff_eq_none] at unassigned
  simp only [recordNames, recordDeclared, List.mem_append, List.mem_cons, List.not_mem_nil,
    or_false, not_or] at new
  obtain ⟨⟨⟨cls, dict, module, hints, doc, hash⟩, members, post, label⟩, method⟩ := new
  constructor
  · unfold generalAttribute?
    simp [cls, dict]
  · unfold recordAttribute?
    rw [unassigned, Option.none_or]
    simp_all [moduleLabel]

/-- Under its own names a record class has something, whatever the entries of a record are. -/
theorem attribute_present (es : List (String × Value)) (own : w.RecordsHave typeName name) :
    ((record typeName es).generalAttribute? w name).or
      (recordAttribute? w typeName (.record typeName es) name) ≠ Option.none := by
  intro absent
  obtain ⟨general, absent⟩ := Option.or_eq_none_iff.1 absent
  obtain ⟨unassigned, offered⟩ := Option.or_eq_none_iff.1 absent
  rcases own with among | assigned
  -- The two labels that every value has are answered before the class is asked.
  · have plain : name ≠ classLabel ∧ name ≠ dictLabel := by
      unfold generalAttribute? at general
      constructor <;> rintro rfl <;> cases general
    split at offered
    any_goals cases offered
    next members post label hints doc hash module =>
      have method : name ∈ recordMethods := by
        simp only [recordNames, recordDeclared, List.mem_append, List.mem_cons, List.not_mem_nil,
          or_false] at among
        simp_all [moduleLabel]
      rw [if_pos (by simpa using method)] at offered
      cases offered
  · simp [unassigned] at assigned

end Value

/-! ## Making records and setting post fields -/

namespace TypeDecl

variable {w : World} {t : TypeDecl} {es : List (String × Value)}

/-- Setting a post field of a record, which has the entries that are left behind. -/
def post (t : TypeDecl) (name : String) (v : Value) :
    ExceptT Fault (StateM (List (String × Value))) Unit := do
  set (← t.setPost (← get) name v)

/-- The entries of a record after post fields were set one after the other, whether this was refused
or not. -/
def afterPosts (t : TypeDecl) (es : List (String × Value)) (posts : List (String × Value)) :
    List (String × Value) :=
  posts.foldl (fun es p => (runOn (t.post p.1 p.2) es).2) es

/-- Setting a post field puts it into the record; setting anything else is refused and changes
nothing. -/
theorem runOn_post (name : String) (v : Value) : runOn (t.post name v) es =
    if t.postMembers.contains name then (.ok (), Document.putNamed es name v)
    else (.error (.notPostField name t.name (sortedNames t.postMembers)), es) := by
  unfold post setPost
  rw [runOn_bind_ok (runOn_get es)]
  split <;> rfl

/-- Setting a post field adds nothing but a post member. -/
theorem names_post {name n : String} {v : Value}
    (there : n ∈ ((runOn (t.post name v) es).2).map (·.1)) :
    n ∈ es.map (·.1) ∨ n ∈ t.postMembers := by
  rw [runOn_post] at there
  split at there
  · next post =>
    rcases Document.names_putNamed.1 there with rfl | old
    · exact .inr (by simpa using post)
    · exact .inl old
  · exact .inl there

theorem names_afterPosts {n : String} {posts : List (String × Value)}
    (there : n ∈ (t.afterPosts es posts).map (·.1)) : n ∈ es.map (·.1) ∨ n ∈ t.postMembers := by
  induction posts generalizing es with
  | nil => exact .inl there
  | cons p posts ih =>
    rcases ih there with earlier | post
    · exact names_post earlier
    · exact .inr post

/-- A record is made of members of its type. -/
theorem names_makeRecord (found : w.schema.types.find? (·.name == t.name) = some t)
    {v r : Value} (made : Value.makeRecord w t.name v = .ok r) :
    ∃ es, r = .record t.name es ∧ ∀ n ∈ es.map (·.1), n ∈ t.preMembers := by
  unfold Value.makeRecord at made
  rw [found, Option.getD_some] at made
  cases pairs : Value.toOrderedEntries w v with
  | error f =>
    rw [pairs] at made
    cases made
  | ok entries =>
    rw [pairs] at made
    dsimp only [bind, Except.bind] at made
    split at made
    · next known =>
      cases made
      rw [List.isEmpty_iff, List.filter_eq_nil_iff] at known
      refine ⟨_, rfl, fun n hn => ?_⟩
      rw [List.map_map] at hn
      obtain ⟨e, among, rfl⟩ := List.mem_map.1 hn
      have member := known e.1 (List.mem_map_of_mem among)
      obtain ⟨k, u⟩ := e
      cases k with
      | str s =>
        show s ∈ t.preMembers
        simpa [Value.text?] using member
      | _ => simp [Value.text?] at member
    · cases made

end TypeDecl

/-! ## Reading records -/

namespace Value

variable {w : World} {typeName name : String} {es : List (String × Value)}

theorem exists_lookup (there : name ∈ es.map (·.1)) : ∃ v, es.lookup name = some v := by
  cases found : es.lookup name with
  | some v => exact ⟨v, rfl⟩
  | none =>
    obtain ⟨e, among, rfl⟩ := List.mem_map.1 there
    simpa using List.lookup_eq_none_iff.1 found e among

/-- Where the class has nothing, an entry is read alike as an item and as an attribute. -/
theorem reads_alike (other : ¬w.RecordsHave typeName name) (there : name ∈ es.map (·.1)) :
    ∃ v, readItem w (.record typeName es) (.str name) = .ok v
      ∧ getAttr w (.record typeName es) name = .ok v := by
  obtain ⟨v, found⟩ := exists_lookup there
  obtain ⟨general, own⟩ := attributes_absent es other
  refine ⟨v, ?_, ?_⟩
  · rw [readItem_record, found, Option.elim_some]
  · rw [getAttr_record, general, own, Option.none_or, Option.none_or, found, Option.elim_some]

/-- Where neither the class nor the record has anything, reading an attribute is refused. -/
theorem getAttr_refused (other : ¬w.RecordsHave typeName name) (absent : name ∉ es.map (·.1)) :
    getAttr w (.record typeName es) name = .error (.recordAttribute typeName name) := by
  obtain ⟨general, own⟩ := attributes_absent es other
  have none : es.lookup name = Option.none := by
    refine List.lookup_eq_none_iff.2 fun e among => ?_
    have differs : name ≠ e.1 := fun same => absent (same ▸ List.mem_map_of_mem among)
    simpa using differs
  rw [getAttr_record, general, own, Option.none_or, Option.none_or, none, Option.elim_none]

/-- What the class has is read, whatever the entries are. -/
theorem getAttr_hidden (own : w.RecordsHave typeName name) :
    ∃ v, ((record typeName es).generalAttribute? w name).or
        (recordAttribute? w typeName (.record typeName es) name) = some v
      ∧ getAttr w (.record typeName es) name = .ok v := by
  obtain ⟨v, has⟩ := Option.ne_none_iff_exists'.1 (attribute_present es own)
  refine ⟨v, has, ?_⟩
  rw [getAttr_record, ← Option.or_assoc, has, Option.some_or, Option.elim_some]

end Value

/-- The entries of a record are its items and its attributes, but for the names that its class has
attributes for; there the attribute of the class is read. Reading an attribute that neither has is
refused. A record that was made has members of its type only, and whatever post fields are set
afterwards, in whatever order, it has nothing beyond these and the post members. What is not a post
field is refused, and changes nothing. -/
theorem records_readable {w : World} (reached : w.IsReached) (a : Trail) :
    let now := w.after a
    (∀ typeName es name, ¬now.RecordsHave typeName name →
      if name ∈ es.map (·.1) then
        ∃ v, Value.readItem now (.record typeName es) (.str name) = .ok v
          ∧ Value.getAttr now (.record typeName es) name = .ok v
      else
        ∃ f, Value.getAttr now (.record typeName es) name = .error f
          ∧ f.kind = .missingAttribute) ∧
    (∀ typeName es name, now.RecordsHave typeName name →
      ∃ v, ((Value.record typeName es).generalAttribute? now name).or
          (Value.recordAttribute? now typeName (.record typeName es) name) = some v
        ∧ Value.getAttr now (.record typeName es) name = .ok v) ∧
    ∀ t ∈ w.schema.types,
      (∀ v r, Value.makeRecord now t.name v = .ok r →
        ∃ es, r = .record t.name es ∧ ∀ posts, ∀ n ∈ (t.afterPosts es posts).map (·.1),
          n ∈ t.preMembers ∨ n ∈ t.postMembers) ∧
      ∀ es name v,
        if name ∈ t.postMembers then
          runOn (t.post name v) es = (.ok (), Document.putNamed es name v)
        else
          ∃ f, runOn (t.post name v) es = (.error f, es) ∧ f.kind = .assertion := by
  intro now
  refine ⟨fun typeName es name other => ?_, fun _ _ _ => Value.getAttr_hidden, fun t ht => ⟨?_, ?_⟩⟩
  · split
    · next there => exact Value.reads_alike other there
    · next absent => exact ⟨_, Value.getAttr_refused other absent, rfl⟩
  · intro v r made
    obtain ⟨es, rfl, members⟩ :=
      TypeDecl.names_makeRecord (w := now) (reached.orderly.find?_name ht) made
    refine ⟨es, rfl, fun posts n there => ?_⟩
    exact (TypeDecl.names_afterPosts there).imp_left (members n)
  · intro es name v
    rw [TypeDecl.runOn_post]
    by_cases post : name ∈ t.postMembers
    · rw [if_pos post, if_pos (by simpa using post)]
    · rw [if_neg post, if_neg (by simpa using post)]
      exact ⟨_, rfl, rfl⟩

namespace Session

/-- A schema of carts, with a field for what they cost and one for what is in them. -/
def shopping : List Event :=
  let cart : HostType := .declared "Cart"
  let itself : Value :=
    .ofTree (.lambda [⟨0, "context"⟩, QueryDecl.sampleEntity] (.param QueryDecl.sampleEntity))
  [.addType cart none "",
    .addField cart "price" itself (some (.builtin .str)) false "",
    .addField cart "items" itself (some (.builtin .str)) false "",
    .addQuery .unmodified "cart" cart (.ofTree (.lambda [⟨0, "context"⟩] (.lit (.str "x")))) "",
    .complete]

theorem price_readable :
    let w := ((start default ⟨0, "context"⟩ 8).after shopping).world
    let now := w.after ⟨8, [], []⟩
    let r : Value := .record "Cart" [("price", .int 3)]
    w.IsReached ∧ ¬now.RecordsHave "Cart" "price" ∧
      ∃ v, Value.readItem now r (.str "price") = .ok v ∧ Value.getAttr now r "price" = .ok v := by
  intro w now r
  have reached : w.IsReached := ⟨default, _, _, _, rfl⟩
  have other : ¬now.RecordsHave "Cart" "price" := by
    rintro (own | assigned)
    · exact absurd own (by decide)
    · cases assigned
  have read := (records_readable reached ⟨8, [], []⟩).1 "Cart" [("price", .int 3)] "price" other
  rw [if_pos (by decide)] at read
  exact ⟨reached, other, read⟩

/-- Whether the answer to a request is a record, one of whose entries is read as an item, but cannot
be read as an attribute, since its class has a function under the name. -/
def hides (w : World) (name : String) : Outcome Answer → Bool
  | .ok (.value (.record t es)) =>
    match Value.readItem w (.record t es) (.str name), Value.getAttr w (.record t es) name with
    | .ok (.str _), .ok (.method _ m) => m == name
    | _, _ => false
  | _ => false

/-- The items of a cart are there, but as an attribute of the record its method is read. -/
theorem items_hidden :
    let s := (start default ⟨0, "context"⟩ 8).after shopping
    s.world.schema.completed = true ∧
      hides s.world "items"
        (runOn (Event.execute .none "cart" [] [.field "items" [] []] .all).act s).1 = true := by
  decide +kernel

end Session

end EntityGraph
