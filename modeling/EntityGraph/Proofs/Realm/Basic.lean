import EntityGraph.Proofs.Host.Class
import EntityGraph.Proofs.Run
import EntityGraph.Proofs.Value.Mundane
import EntityGraph.Value.Method

/-!
# Realms of values

A realm is a sort of values that computing does not leave, with the faults that computing in it may
end in. It says what the constructors of values keep of it, and which names are not read in it. A
world is covered by a realm if whatever it declares and holds for values of the realm is in the realm.

What operations give in a realm is shown once, for all realms in which that is of interest: that of
the values at hand while a function is captured, that of the values from which no proxy can be
reached, and that of all values, where only the faults say something.
-/

namespace EntityGraph

variable {α β : Type}

/-! ## What outcomes give -/

/-- Whether the result of a computation, if there is one, is of a certain sort. -/
def Brings (P : α → Prop) (x : Outcome α) : Prop := ∀ a, x = .ok a → P a

section

variable {P : α → Prop} {Q : β → Prop}

@[simp, grind =] theorem brings_ok (a : α) : Brings P (.ok a : Outcome α) ↔ P a :=
  ⟨fun h => h a rfl, fun h b is => by cases is; exact h⟩

@[simp, grind .] theorem brings_error (e : Fault) : Brings P (.error e : Outcome α) := nofun

@[simp, grind =] theorem brings_bind (x : Outcome β) (f : β → Outcome α) :
    Brings P (x >>= f) ↔ ∀ b, x = .ok b → Brings P (f b) := by
  refine ⟨?_, fun h a is => ?_⟩
  · rintro h b rfl
    exact h
  · obtain ⟨b, hx, hf⟩ := outcome_bind_ok is
    exact h b hx a hf

theorem Brings.mono {P' : α → Prop} {x : Outcome α} (h : Brings P x) (sub : ∀ a, P a → P' a) :
    Brings P' x :=
  fun a is => sub a (h a is)

theorem Brings.bind {x : Outcome β} {f : β → Outcome α} (hx : Brings Q x)
    (hf : ∀ b, Q b → Brings P (f b)) : Brings P (x >>= f) :=
  (brings_bind x f).2 fun b is => hf b (hx b is)

@[simp, grind =] theorem brings_elim (o : Option β) (x : Outcome α) (f : β → Outcome α) :
    Brings P (o.elim x f) ↔ (o = none → Brings P x) ∧ ∀ b, o = some b → Brings P (f b) := by
  cases o <;> simp

@[simp, grind =] theorem brings_getD (o : Option (Outcome α)) (x : Outcome α) :
    Brings P (o.getD x) ↔ (o = none → Brings P x) ∧ ∀ y, o = some y → Brings P y := by
  cases o <;> simp

theorem brings_mapM {as : List β} {f : β → Outcome α} (each : ∀ b ∈ as, Brings P (f b)) :
    Brings (fun cs => ∀ c ∈ cs, P c) (as.mapM f) := by
  induction as with
  | nil =>
    intro cs is
    cases is
    exact nofun
  | cons b as ih =>
    rw [List.mapM_cons]
    refine Brings.bind (each b (by simp)) fun c hc => ?_
    refine Brings.bind (ih fun b' hb' => each b' (by simp [hb'])) fun cs hcs => ?_
    exact (brings_ok _).2 (List.forall_mem_cons.2 ⟨hc, hcs⟩)

theorem brings_foldlM {as : List β} {f : α → β → Outcome α} {a : α} (start : P a)
    (each : ∀ a, P a → ∀ b ∈ as, Brings P (f a b)) : Brings P (as.foldlM f a) := by
  induction as generalizing a with
  | nil => exact (brings_ok a).2 start
  | cons b as ih =>
    rw [List.foldlM_cons]
    refine Brings.bind (each a start b (by simp)) fun a' ha' => ?_
    exact ih ha' fun a'' ha'' b' hb' => each a'' ha'' b' (by simp [hb'])

theorem brings_filterM (as : List α) (f : α → Outcome Bool) : Brings (· ⊆ as) (as.filterM f) := by
  have each : ∀ (as : List α) kept, Brings (· ⊆ as ++ kept) (as.filterAuxM f kept) := by
    intro as
    induction as with
    | nil => exact fun kept => (brings_ok _).2 (by simp)
    | cons a as ih =>
      intro kept
      refine (brings_bind _ _).2 fun b _ => ?_
      refine (ih _).mono fun found sub => List.Subset.trans sub ?_
      cases b <;> grind
  refine Brings.bind (each as []) fun kept sub => (brings_ok _).2 ?_
  intro a ha
  simpa using sub (List.mem_reverse.1 ha)

end

/-! ## Realms -/

namespace Value

/-- Whether a value is data without parts. -/
def isAtom : Value → Bool
  | none | bool _ | int _ | float .. | str _ | bytes _ | decimal .. | complex .. | date _
  | timestamp _ | span _ | zone _ | uuid _ | primitive _ | undefined => true
  | _ => false

/-- Whether a value stands for what expressions or a schema say. -/
def isDescription : Value → Bool
  | expr .. | typeRef _ | fieldRef .. | schema => true
  | _ => false

end Value

/-- A sort of values that computing does not leave. -/
structure Realm where
  Holds : Value → Prop
  /-- Whether computing with values of the realm may end in a fault. -/
  Allows : Fault → Prop
  /-- The names under which nothing is read. -/
  hidden : List String
  atom {v : Value} : v.isAtom = true → Holds v
  list {vs : List Value} : Holds (.list vs) ↔ ∀ v ∈ vs, Holds v
  tuple {vs : List Value} : Holds (.tuple vs) ↔ ∀ v ∈ vs, Holds v
  set {vs : List Value} : Holds (.set vs) ↔ ∀ v ∈ vs, Holds v
  dict {es : List (Value × Value)} : Holds (.dict es) ↔ ∀ e ∈ es, Holds e.1 ∧ Holds e.2
  entries {es : List (Value × Value)} {mark : Nat} :
    Holds (.orderedDict es mark) → ∀ e ∈ es, Holds e.1 ∧ Holds e.2
  ordered {es : List (Value × Value)} : (∀ e ∈ es, Holds e.1 ∧ Holds e.2) → Holds (.ofEntries es)
  record {name : String} {fs : List (String × Value)} :
    Holds (.record name fs) ↔ ∀ f ∈ fs, Holds f.2
  builtin {b : Builtin} : b ≠ .proxy → Holds (.type (.builtin b))
  declared (className : String) : Holds (.type (.declared className))
  recordType (typeName : String) : Holds (.type (.record typeName))
  generic {t : HostType} {vs : List Value} :
    Holds (.generic t vs) ↔ Holds (.type t) ∧ ∀ v ∈ vs, Holds v
  foreign {t : HostType} {mark : Nat} : Holds (.foreign t mark) ↔ Holds (.type t)
  method {v : Value} {name : String} : Holds (.method v name) ↔ Holds v ∧ name ∉ hidden
  ordinary {e : Fault} : e.IsOrdinary → Allows e
  /-- Where there are proxies they can be asked. -/
  proxies {u : Value} {mark : Nat} : Holds (.proxy u mark) →
    Holds (.type (.builtin .proxy)) ∧ Allows .proxyTruth ∧ Allows .proxyIteration
  /-- What describes expressions or a schema gives everything away. -/
  all {v : Value} : v.isDescription = true → Holds v → ∀ u, Holds u

namespace Realm

variable (R : Realm)

@[simp, grind =] theorem holds_list {vs : List Value} : R.Holds (.list vs) ↔ ∀ v ∈ vs, R.Holds v :=
  R.list

@[simp, grind =] theorem holds_tuple {vs : List Value} :
    R.Holds (.tuple vs) ↔ ∀ v ∈ vs, R.Holds v := R.tuple

@[simp, grind =] theorem holds_set {vs : List Value} : R.Holds (.set vs) ↔ ∀ v ∈ vs, R.Holds v :=
  R.set

@[simp, grind =] theorem holds_dict {es : List (Value × Value)} :
    R.Holds (.dict es) ↔ ∀ e ∈ es, R.Holds e.1 ∧ R.Holds e.2 := R.dict

@[simp, grind =] theorem holds_record {name : String} {fs : List (String × Value)} :
    R.Holds (.record name fs) ↔ ∀ f ∈ fs, R.Holds f.2 := R.record

@[simp, grind =] theorem holds_generic {t : HostType} {vs : List Value} :
    R.Holds (.generic t vs) ↔ R.Holds (.type t) ∧ ∀ v ∈ vs, R.Holds v := R.generic

@[simp, grind =] theorem holds_foreign {t : HostType} {mark : Nat} :
    R.Holds (.foreign t mark) ↔ R.Holds (.type t) := R.foreign

@[simp, grind =] theorem holds_method {v : Value} {name : String} :
    R.Holds (.method v name) ↔ R.Holds v ∧ name ∉ R.hidden := R.method

@[simp, grind .] theorem holds_none : R.Holds .none := R.atom rfl

@[simp, grind .] theorem holds_bool (b : Bool) : R.Holds (.bool b) := R.atom rfl

@[simp, grind .] theorem holds_int (n : Int) : R.Holds (.int n) := R.atom rfl

@[simp, grind .] theorem holds_float (x : Float) (m : Nat) : R.Holds (.float x m) := R.atom rfl

@[simp, grind .] theorem holds_str (s : String) : R.Holds (.str s) := R.atom rfl

@[simp, grind .] theorem holds_bytes (bs : List UInt8) : R.Holds (.bytes bs) := R.atom rfl

@[simp, grind .] theorem holds_decimal (x : DecimalFloat) (m : Nat) : R.Holds (.decimal x m) :=
  R.atom rfl

@[simp, grind .] theorem holds_complex (z : ComplexFloat) (m : Nat) : R.Holds (.complex z m) :=
  R.atom rfl

@[simp, grind .] theorem holds_date (x : Calendar.Date) : R.Holds (.date x) := R.atom rfl

@[simp, grind .] theorem holds_timestamp (t : Calendar.Timestamp) : R.Holds (.timestamp t) :=
  R.atom rfl

@[simp, grind .] theorem holds_span (s : Calendar.Span) : R.Holds (.span s) := R.atom rfl

@[simp, grind .] theorem holds_zone (m : Int) : R.Holds (.zone m) := R.atom rfl

@[simp, grind .] theorem holds_uuid (u : Uuid) : R.Holds (.uuid u) := R.atom rfl

@[simp, grind .] theorem holds_primitive (p : Primitive) : R.Holds (.primitive p) := R.atom rfl

@[simp, grind .] theorem holds_ofFloat (x : Float) : R.Holds (.ofFloat x) := R.atom rfl

@[simp, grind .] theorem holds_ofDecimalFloat (x : DecimalFloat) : R.Holds (.ofDecimalFloat x) :=
  R.atom rfl

@[simp, grind .] theorem holds_ofComplexFloat (z : ComplexFloat) : R.Holds (.ofComplexFloat z) :=
  R.atom rfl

@[simp, grind .] theorem holds_declared (className : String) :
    R.Holds (.type (.declared className)) := R.declared className

@[simp, grind .] theorem holds_recordType (typeName : String) :
    R.Holds (.type (.record typeName)) := R.recordType typeName

theorem holds_ofClass {b : Builtin} (other : b ≠ .proxy) : R.Holds (.ofClass b) :=
  R.foreign.2 (R.builtin other)

variable {R} in
/-- Where there are descriptions there is everything. -/
theorem holds_of_description {v : Value} (h : R.Holds v) (is : v.isDescription = true) (u : Value) :
    R.Holds u := R.all is h u

end Realm

/-- Whether what proxies of a realm record is in the realm. -/
structure Realm.Records (R : Realm) (w : World) : Prop where
  left : ∀ u m b op, R.Holds (.proxy u m) → R.Holds b →
    Brings R.Holds (Value.recordBinary w op u b.recorded)
  right : ∀ a u m op, R.Holds a → R.Holds (.proxy u m) →
    Brings R.Holds (Value.recordBinary w op a.recorded u)
  unary : ∀ u m op, R.Holds (.proxy u m) → Brings R.Holds (Value.recordUnary w op u)
  item : ∀ u m key, R.Holds (.proxy u m) → R.Holds key →
    Brings R.Holds (Value.readItem w (.proxy u m) key)
  read : ∀ u m name, R.Holds (.proxy u m) → name ∉ R.hidden →
    Brings R.Holds (Value.proxyAttribute w u m name)
  method : ∀ u m name args, R.Holds (.proxy u m) → name ∉ R.hidden → (∀ a ∈ args, R.Holds a) →
    Brings R.Holds (Value.callProxyMethod w u m name args)

/-- Whether whatever a world has for values of a realm is in the realm. -/
structure Realm.Covers (R : Realm) (w : World) : Prop where
  attributes : ∀ v r, R.Holds v → v.ref? w = some r → ∀ a ∈ (w.object r).attributes, R.Holds a.2
  assigned : ∀ v r name u, R.Holds v → v.ref? w = some r → w.assigned? r name = some u → R.Holds u
  objectType : ∀ r, R.Holds (.type (w.object r).type)
  offers : ∀ className name a, w.classAttribute? className name = some a →
    a.Offers R.hidden R.Holds
  methods : ∀ className name r, w.classes.attribute? className name = some (.method r) →
    (∀ v, r = .value v → R.Holds v) ∧ ∀ n, r = .attribute n → n ∉ R.hidden
  defaults : ∀ className, ∀ m ∈ w.classes.fields className, ∀ v, m.default = some v → R.Holds v
  ancestry : ∀ t u, R.Holds (.type t) → u ∈ w.classes.ancestry t ∨ u ∈ w.classes.basesOf t →
    R.Holds (.type u)
  records : R.Records w

/-!
## Parts of values in a realm

In a world that a realm covers, whatever a value of the realm is made of is in the realm too: its
elements and entries, its class, and the fields of instances. So are the dictionaries and sets that are
put together from values of the realm.
-/

/-! ### Elements and entries -/

namespace Value

variable {R : Realm} {w : World} {v : Value}

theorem holds_entriesOf {fs : List (String × Value)} (h : ∀ f ∈ fs, R.Holds f.2) :
    ∀ e ∈ entriesOf fs, R.Holds e.1 ∧ R.Holds e.2 := by
  intro e he
  obtain ⟨f, hf, rfl⟩ := List.mem_map.1 he
  exact ⟨R.holds_str f.1, h f hf⟩

theorem brings_fieldValues {className : String} {fs : List (String × Option Value)}
    (h : ∀ f ∈ fs, ∀ v, f.2 = some v → R.Holds v) :
    Brings (fun vs => ∀ v ∈ vs, R.Holds v) (fieldValues className fs) := by
  refine brings_mapM fun f hf => ?_
  obtain ⟨n, v⟩ := f
  cases v with
  | none => exact brings_error _
  | some v => exact (brings_ok v).2 (h _ hf v rfl)

@[grind .] theorem holds_medium {medium : Medium} (cs : List Char) :
    R.Holds (medium.value cs) := by
  cases medium <;> exact R.atom rfl

theorem holds_lookup {fs : List (String × Value)} (h : ∀ f ∈ fs, R.Holds f.2) {name : String}
    (found : fs.lookup name = some v) : R.Holds v := by
  obtain ⟨before, after, split, -⟩ := List.lookup_eq_some_iff.1 found
  exact h (name, v) (by simp [split])

theorem holds_entriesView {es : List (Value × Value)} {b : Bool} (hv : R.Holds v)
    (is : v.entriesView? = some (es, b)) : ∀ e ∈ es, R.Holds e.1 ∧ R.Holds e.2 := by
  unfold entriesView? at is
  split at is <;> cases is
  · exact R.dict.1 hv
  · exact R.entries hv
  · exact holds_entriesOf (R.record.1 hv)

mutual

theorem holds_renewed (v : Value) (h : R.Holds v) : R.Holds v.renewed := by
  cases v with
  | list vs => exact R.list.2 (holds_renewedList vs (R.list.1 h))
  | tuple vs => exact R.tuple.2 (holds_renewedList vs (R.tuple.1 h))
  | dict es => exact R.dict.2 (holds_renewedEntries es (R.dict.1 h))
  | orderedDict es m =>
    exact R.ordered (holds_renewedEntries es (R.entries h))
  | float | decimal | complex => exact R.atom rfl
  | _ => exact h

theorem holds_renewedList (vs : List Value) (h : ∀ v ∈ vs, R.Holds v) :
    ∀ v ∈ renewedList vs, R.Holds v := by
  cases vs with
  | nil => exact nofun
  | cons v vs =>
    rw [List.forall_mem_cons] at h
    exact List.forall_mem_cons.2 ⟨holds_renewed v h.1, holds_renewedList vs h.2⟩

theorem holds_renewedEntries (es : List (Value × Value))
    (h : ∀ e ∈ es, R.Holds e.1 ∧ R.Holds e.2) :
    ∀ e ∈ renewedEntries es, R.Holds e.1 ∧ R.Holds e.2 := by
  cases es with
  | nil => exact nofun
  | cons e es =>
    obtain ⟨k, v⟩ := e
    rw [List.forall_mem_cons] at h
    exact List.forall_mem_cons.2
      ⟨⟨holds_renewed k h.1.1, holds_renewed v h.1.2⟩, holds_renewedEntries es h.2⟩

end

section

variable (h : R.Covers w)

include h

theorem holds_fieldValue {className : String} {attributes : List (String × Value)}
    (held : ∀ a ∈ attributes, R.Holds a.2) {m : MemberDecl}
    (hm : m ∈ w.classes.fields className) {v : Value}
    (is : w.fieldValue? className attributes m = some v) : R.Holds v := by
  unfold World.fieldValue? at is
  split at is
  · next found =>
    cases is
    exact holds_lookup held found
  · split at is
    · next offered =>
      cases is
      exact h.offers _ _ _ offered
    · exact h.defaults _ m hm v is
    · cases is

theorem holds_object {r : Ref} (hr : R.Holds (object r)) :
    ∀ a ∈ (w.object r).attributes, R.Holds a.2 := h.attributes _ r hr rfl

theorem holds_objectMembers {r : Ref} (hr : R.Holds (object r)) :
    ∀ f ∈ w.objectMembers r, ∀ v, f.2 = some v → R.Holds v := by
  intro f hf v is
  obtain ⟨m, hm, rfl⟩ := List.mem_map.1 hf
  exact holds_fieldValue h (holds_object h hr) hm is

theorem holds_objectFields {r : Ref} (hr : R.Holds (object r)) :
    ∀ f ∈ w.objectFields r, R.Holds f.2 := by
  intro f hf
  obtain ⟨⟨n, v⟩, among, is⟩ := List.mem_filterMap.1 hf
  obtain ⟨u, found, rfl⟩ := Option.map_eq_some_iff.1 is
  exact holds_objectMembers h hr (n, v) among u found

theorem holds_recordView {p : String × List (String × Option Value)} (hv : R.Holds v)
    (is : v.recordView? w = some p) : ∀ f ∈ p.2, ∀ u, f.2 = some u → R.Holds u := by
  unfold recordView? at is
  split at is
  · split at is
    · cases is
      exact holds_objectMembers h hv
    · cases is
  · cases is

theorem holds_typeIn (hv : R.Holds v) : R.Holds (type (v.typeIn w)) := by
  cases v with
  | object r => exact h.objectType r
  | method receiver name =>
    have typed (t : HostType) (b : Builtin) (is : t = .builtin b) (other : b ≠ .proxy) :
        R.Holds (type t) := is ▸ R.builtin other
    cases receiver with
    | type t => cases t <;> exact typed _ _ rfl nofun
    | _ => exact typed _ _ rfl nofun
  | foreign t m => exact R.foreign.1 hv
  | proxy u m => exact (R.proxies hv).1
  | primitive p =>
    rw [typeIn]
    split
    all_goals
      refine R.builtin ?_
      exact nofun
  | record t fs => exact R.recordType t
  | expr | typeRef | fieldRef | schema => exact R.holds_of_description hv rfl _
  | _ =>
    refine R.builtin ?_
    exact nofun

theorem holds_tupleView {vs : List Value} (hv : R.Holds v) (is : v.tupleView? w = some vs) :
    ∀ u ∈ vs, R.Holds u := by
  unfold tupleView? at is
  split at is
  · cases is
    exact R.tuple.1 hv
  · split at is
    · cases is
      intro u hu
      obtain ⟨f, hf, rfl⟩ := List.mem_map.1 hu
      exact holds_objectFields h hv f hf
    · cases is
  · cases is

theorem holds_elements? {vs : List Value} (hv : R.Holds v) (is : v.elements? w = some vs) :
    ∀ u ∈ vs, R.Holds u := by
  unfold elements? at is
  split at is
  case h_8 => exact holds_tupleView h hv is
  all_goals cases is
  · exact R.list.1 hv
  · exact R.set.1 hv
  all_goals
    intro u hu
    obtain ⟨a, ha, rfl⟩ := List.mem_map.1 hu
  · exact R.holds_str _
  · exact (R.dict.1 hv a ha).1
  · exact (R.entries hv a ha).1
  · exact R.holds_int _
  · exact R.holds_str _

theorem brings_elements (hv : R.Holds v) :
    Brings (fun vs => ∀ u ∈ vs, R.Holds u) (v.elements w) := by
  unfold elements
  split
  · exact brings_error _
  · exact (brings_ok _).2 fun u hu => List.mem_singleton.1 hu ▸ hv
  · split
    · next found => exact (brings_ok _).2 (holds_elements? h hv found)
    · exact brings_error _

theorem holds_places {vs : List Value} (hv : R.Holds v) (is : v.places? w = some vs) :
    ∀ u ∈ vs, R.Holds u := by
  unfold places? at is
  split at is
  · cases is
  · exact holds_elements? h hv is

end

/-! ### Dictionaries and sets -/

theorem brings_findEntry {test : Value → Outcome Bool} {es : List (Value × Value)}
    (h : ∀ e ∈ es, R.Holds e.2) :
    Brings (fun o => ∀ u, o = some u → R.Holds u) (findEntry test es) := by
  induction es with
  | nil => exact (brings_ok _).2 nofun
  | cons e es ih =>
    obtain ⟨k, u⟩ := e
    rw [List.forall_mem_cons] at h
    refine (brings_bind _ _).2 fun b _ => ?_
    split
    · refine (brings_ok _).2 fun u' is => ?_
      cases is
      exact h.1
    · exact ih h.2

theorem brings_entry {es : List (Value × Value)} (h : ∀ e ∈ es, R.Holds e.2) (key : Value) :
    Brings (fun o => ∀ u, o = some u → R.Holds u) <| entry? w es key := by
  unfold entry?
  split
  · exact brings_findEntry h
  · exact brings_error _

theorem brings_putEntry {es : List (Value × Value)} (h : ∀ e ∈ es, R.Holds e.1 ∧ R.Holds e.2)
    {key value : Value} (hk : R.Holds key) (hv : R.Holds value) :
    Brings (fun fs => ∀ e ∈ fs, R.Holds e.1 ∧ R.Holds e.2) (putEntry w es key value) := by
  unfold putEntry
  refine (brings_bind _ _).2 fun found _ => ?_
  split
  · refine (brings_ok _).2 fun e he => ?_
    rcases List.mem_append.1 he with he | he
    · exact h e he
    · cases List.mem_singleton.1 he
      exact ⟨hk, hv⟩
  · refine brings_mapM fun e he => (brings_bind _ _).2 fun b _ => ?_
    split
    · exact (brings_ok _).2 ⟨(h e he).1, hv⟩
    · exact (brings_ok _).2 (h e he)

theorem mem_of_mapM_some {f : α → Option β} {as : List α} {bs : List β} (h : as.mapM f = some bs)
    {b : β} (hb : b ∈ bs) : ∃ a ∈ as, f a = some b := by
  induction as generalizing bs with
  | nil =>
    cases h
    cases hb
  | cons a as ih =>
    rw [List.mapM_cons] at h
    obtain ⟨b', first, h⟩ := Option.bind_eq_some_iff.1 h
    obtain ⟨bs', rest, h⟩ := Option.bind_eq_some_iff.1 h
    cases h
    rcases List.mem_cons.1 hb with rfl | hb
    · exact ⟨a, by simp, first⟩
    · obtain ⟨a', ha', is⟩ := ih rest hb
      exact ⟨a', by simp [ha'], is⟩

theorem setOrder_subset (vs : List Value) : setOrder vs ⊆ vs := by
  unfold setOrder
  split
  · exact fun _ hv => hv
  · next numbered found =>
    intro v hv
    obtain ⟨q, hq, rfl⟩ := List.mem_map.1 hv
    obtain ⟨p, hp, rfl⟩ := List.mem_map.1 (List.mem_mergeSort.1 hq)
    obtain ⟨u, hu, is⟩ := mem_of_mapM_some found hp
    obtain ⟨n, -, rfl⟩ := Option.map_eq_some_iff.1 is
    exact hu

theorem brings_makeSet {vs : List Value} (h : ∀ v ∈ vs, R.Holds v) :
    Brings R.Holds (makeSet w vs) := by
  unfold makeSet
  refine Brings.bind (Q := fun found => ∀ v ∈ found, R.Holds v) ?_ fun distinct hd => ?_
  · refine brings_foldlM nofun fun found hf v hv => ?_
    split
    · exact brings_error _
    · refine (brings_bind _ _).2 fun b _ => ?_
      split
      · exact (brings_ok _).2 hf
      · refine (brings_ok _).2 fun u hu => ?_
        rcases List.mem_append.1 hu with hu | hu
        · exact hf u hu
        · exact List.mem_singleton.1 hu ▸ h v hv
  · exact (brings_ok _).2 (R.set.2 fun v hv => hd v (setOrder_subset distinct hv))

end Value

end EntityGraph
