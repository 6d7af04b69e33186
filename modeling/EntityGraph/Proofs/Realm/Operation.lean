import EntityGraph.Proofs.Realm.Basic

/-!
# Operators and attributes in a realm

Operators and items give values of a realm from values of the realm. What proxies record is up to the
realm; everything else is computed from parts of the operands. What is read of a value of a realm is in
the realm too, as long as its name is not hidden there: data computes its attributes, instances hold
theirs or have them from their classes, and what describes a schema is only in realms that hold
everything.
-/

namespace EntityGraph

variable {R : Realm} {w : World}

/-! ## Operators -/

namespace Value

/-! ### Computing -/

theorem brings_spanOf (micros : Int) : Brings R.Holds (spanOf micros) := by
  unfold spanOf
  split <;> simp

theorem brings_insideCalendar {α : Type} {make : α → Value} (each : ∀ a, R.Holds (make a))
    (a : Option α) : Brings R.Holds (insideCalendar make a) := by
  unfold insideCalendar
  split <;> simp [each]

theorem brings_ofDecimal (x : Except DecimalFault DecimalFloat) :
    Brings R.Holds (ofDecimal x) := by
  cases x with
  | ok d => exact (brings_ok _).2 (R.holds_ofDecimalFloat d)
  | error e => exact brings_error _

theorem brings_spanRatio (num den : Int) : Brings R.Holds (spanRatio num den) := by
  have spanOf := @brings_spanOf R
  unfold spanRatio
  grind

section

variable {a b : Value} {x : Outcome Value}

theorem brings_addTimes (is : addTimes? a b = some x) : Brings R.Holds x := by
  have spanOf := @brings_spanOf R
  have dates := brings_insideCalendar (R.holds_date)
  have timestamps := brings_insideCalendar (R.holds_timestamp)
  unfold addTimes? at is
  grind

theorem brings_subTimes (is : subTimes? a b = some x) : Brings R.Holds x := by
  have spanOf := @brings_spanOf R
  have dates := brings_insideCalendar (R.holds_date)
  have timestamps := brings_insideCalendar (R.holds_timestamp)
  unfold subTimes? at is
  grind

theorem brings_scaleSpan {s : Calendar.Span} (is : scaleSpan? s b = some x) :
    Brings R.Holds x := by
  have spanRatio := @brings_spanRatio R
  unfold scaleSpan? at is
  split at is
  · grind
  · obtain ⟨n, -, rfl⟩ := Option.map_eq_some_iff.1 is
    exact brings_spanOf _

theorem brings_mulTimes (is : mulTimes? a b = some x) : Brings R.Holds x := by
  have scaled := @brings_scaleSpan R
  unfold mulTimes? at is
  grind

theorem brings_divTimes (is : divTimes? a b = some x) : Brings R.Holds x := by
  have spanRatio := @brings_spanRatio R
  unfold divTimes? at is
  split at is
  · grind
  · grind
  · obtain ⟨n, -, rfl⟩ := Option.map_eq_some_iff.1 is
    exact brings_spanRatio _ _
  · cases is

theorem brings_modTimes (is : modTimes? a b = some x) : Brings R.Holds x := by
  have spanOf := @brings_spanOf R
  unfold modTimes? at is
  grind

end

theorem brings_fill (text : String) (v : Value) : Brings R.Holds (fill w text v) :=
  (brings_bind _ _).2 fun _ _ => (brings_ok _).2 (R.holds_str _)

theorem brings_fillBytes (bs : List UInt8) (v : Value) : Brings R.Holds (fillBytes w bs v) :=
  (brings_bind _ _).2 fun _ _ => (brings_ok _).2 (R.holds_bytes _)

section

variable (h : R.Covers w) {a b : Value} (ha : R.Holds a) (hb : R.Holds b)

include h

theorem brings_times {n : Int} {x : Outcome Value} (ha : R.Holds a) (is : a.times w n = some x) :
    Brings R.Holds x := by
  have within {α : Type} {isText : Bool} {make : List α → Value} {xs : List α}
      (each : R.Holds (make (repeated xs n))) :
      Brings R.Holds (timesWithin isText make xs n) := by
    unfold timesWithin
    grind
  have sub {α : Type} (xs : List α) : repeated xs n ⊆ xs := by
    unfold repeated
    intro x hx
    grind [List.mem_flatten]
  unfold times at is
  split at is
  · cases is
    exact within (R.holds_str _)
  · cases is
    exact within (R.list.2 fun u hu => R.list.1 ha u (sub _ hu))
  · cases is
    exact within (R.holds_bytes _)
  · obtain ⟨xs, found, rfl⟩ := Option.map_eq_some_iff.1 is
    exact within (R.tuple.2 fun u hu => holds_tupleView h ha found u (sub _ hu))

include ha hb

theorem brings_join : Brings R.Holds (join w a b) := by
  unfold join
  split
  case h_7 =>
    split
    · next xs ys hx hy =>
      refine (brings_ok _).2 (R.tuple.2 fun u hu => ?_)
      rcases List.mem_append.1 hu with hu | hu
      · exact holds_tupleView h ha hx u hu
      · exact holds_tupleView h hb hy u hu
    · exact brings_error _
    · exact brings_error _
  all_goals grind

theorem brings_add : Brings R.Holds (add w a b) := by
  have ofDecimal := @brings_ofDecimal R
  have join := brings_join h ha hb
  have times := @brings_addTimes R a b
  unfold add
  grind

omit h hb in
theorem brings_sub (b : Value) : Brings R.Holds (sub w a b) := by
  have times := @brings_subTimes R a b
  unfold sub
  refine (brings_bind _ _).2 fun numbers _ => ?_
  split
  · exact (brings_ok _).2 (R.holds_int _)
  · exact (brings_ok _).2 (R.holds_ofFloat _)
  · exact brings_ofDecimal _
  · exact (brings_ok _).2 (R.holds_ofComplexFloat _)
  · split
    · refine Brings.bind (brings_filterM _ _) fun kept sub => (brings_ok _).2 ?_
      exact R.set.2 fun u hu => R.set.1 ha u (sub (setOrder_subset kept hu))
    · grind

theorem brings_mul : Brings R.Holds (mul w a b) := by
  have repeated {o : Option Int} {v : Value} {x : Outcome Value} (hv : R.Holds v)
      (is : o.bind (v.times w) = some x) : Brings R.Holds x := by
    obtain ⟨n, -, made⟩ := Option.bind_eq_some_iff.1 is
    exact brings_times h hv made
  unfold mul
  refine (brings_bind _ _).2 fun numbers _ => ?_
  split
  · exact (brings_ok _).2 (R.holds_int _)
  · exact (brings_ok _).2 (R.holds_ofFloat _)
  · exact brings_ofDecimal _
  · exact (brings_ok _).2 (R.holds_ofComplexFloat _)
  · split
    · exact brings_mulTimes ‹_›
    · exact repeated ha ‹_›
    · exact repeated hb ‹_›
    · grind

omit h ha hb in
theorem brings_div (a b : Value) : Brings R.Holds (div w a b) := by
  have ofDecimal := @brings_ofDecimal R
  have times := @brings_divTimes R a b
  unfold div
  grind

omit h ha hb in
theorem brings_mod (a b : Value) : Brings R.Holds (mod w a b) := by
  have fill := @brings_fill R w
  have fillBytes := @brings_fillBytes R w
  have ofDecimal := @brings_ofDecimal R
  have times := @brings_modTimes R a b
  unfold mod
  grind

omit h hb in
theorem brings_bitAnd (b : Value) : Brings R.Holds (bitAnd w a b) := by
  unfold bitAnd
  split
  · exact (brings_ok _).2 (R.holds_bool _)
  · refine Brings.bind (brings_filterM _ _) fun kept sub => (brings_ok _).2 ?_
    exact R.set.2 fun u hu => R.set.1 ha u (sub (setOrder_subset kept hu))
  · grind

omit h ha hb in
theorem brings_merge {es fs : List (Value × Value)}
    (hes : ∀ e ∈ es, R.Holds e.1 ∧ R.Holds e.2) (hfs : ∀ e ∈ fs, R.Holds e.1 ∧ R.Holds e.2) :
    Brings (fun gs => ∀ e ∈ gs, R.Holds e.1 ∧ R.Holds e.2) (merge w es fs) :=
  brings_foldlM hes fun _ hgs e he => brings_putEntry hgs (hfs e he).1 (hfs e he).2

omit h in
theorem brings_bitOr : Brings R.Holds (bitOr w a b) := by
  unfold bitOr
  split
  · exact (brings_ok _).2 (R.holds_bool _)
  · refine brings_makeSet fun u hu => ?_
    rcases List.mem_append.1 hu with hu | hu
    · exact R.set.1 ha u hu
    · exact R.set.1 hb u hu
  · refine Brings.bind (brings_merge (R.dict.1 ha) (R.dict.1 hb)) fun es hes => ?_
    exact (brings_ok _).2 (R.dict.2 hes)
  · split
    · next left right =>
      refine Brings.bind (brings_merge (holds_entriesView ha left) (holds_entriesView hb right))
        fun es hes => ?_
      exact (brings_ok _).2 (R.ordered hes)
    · have union : R.Holds (ofClass .unionType) := R.holds_ofClass nofun
      unfold unite
      grind

theorem brings_compute (op : ScriptOp) : Brings R.Holds (compute w op a b) := by
  unfold compute
  split
  case h_7 => exact brings_bitAnd ha b
  case h_8 => exact brings_bitOr ha hb
  case h_9 => exact brings_add h ha hb
  case h_10 => exact brings_sub ha b
  case h_11 => exact brings_mul h ha hb
  case h_12 => exact brings_div a b
  case h_13 => exact brings_mod a b
  all_goals exact (brings_bind _ _).2 fun _ _ => (brings_ok _).2 (R.holds_bool _)

end

/-! ### Recording -/

section

variable (h : R.Covers w) {a b u v : Value}

include h

theorem brings_operate (op : ScriptOp) (ha : R.Holds a) (hb : R.Holds b) :
    Brings R.Holds (operate w op a b) := by
  have fill := @brings_fill R w
  have fillBytes := @brings_fillBytes R w
  unfold operate
  split
  · exact h.records.left _ _ _ _ ha hb
  · split
    · next x answers =>
      unfold answersFirst at answers
      grind
    · split
      · exact h.records.left _ _ _ _ hb ha
      · exact h.records.right _ _ _ _ ha hb
  · exact brings_compute h ha hb op

theorem brings_negate (hv : R.Holds v) : Brings R.Holds (negate w v) := by
  have ofDecimal := @brings_ofDecimal R
  have spanOf := @brings_spanOf R
  unfold negate
  split
  · exact h.records.unary _ _ _ hv
  · unfold neg
    grind

theorem brings_invert (hv : R.Holds v) : Brings R.Holds (invert w v) := by
  unfold invert
  split
  · exact h.records.unary _ _ _ hv
  · unfold complement
    grind

/-! ## Items -/

omit h in
theorem brings_atIndex {vs : List Value} (each : ∀ v ∈ vs, R.Holds v) (i : Int) :
    Brings R.Holds (atIndex vs i) := by
  unfold atIndex
  grind [List.mem_of_getElem?]

theorem brings_readItem {key : Value} (hv : R.Holds v) (hk : R.Holds key) :
    Brings R.Holds (readItem w v key) := by
  unfold readItem
  split
  · exact h.records.item _ _ _ hv hk
  · split
    · refine (brings_ok _).2 (R.generic.2 ⟨hv, fun u hu => ?_⟩)
      cases view : key.tupleView? w with
      | none =>
        rw [view] at hu
        exact List.mem_singleton.1 hu ▸ hk
      | some us =>
        rw [view] at hu
        exact holds_tupleView h hk view u hu
    · exact brings_error _
  · split
    · next es _ _ view =>
      refine Brings.bind (brings_entry (fun e he => (holds_entriesView hv view e he).2) key)
        fun found hf => ?_
      split
      · exact (brings_ok _).2 (hf _ rfl)
      · exact brings_error _
    · next view _ =>
      refine (brings_elim _ _ _).2 ⟨fun _ => brings_error _, fun i _ => ?_⟩
      exact brings_atIndex (holds_places h hv view) i
    · exact brings_error _

end

end Value

/-! ## Attributes -/

namespace Value

/-- What describes expressions or a schema gives away nothing that is not in the realm. -/
theorem brings_of_description {v : Value} (hv : R.Holds v) (is : v.isDescription = true)
    (x : Outcome Value) : Brings R.Holds x :=
  fun u _ => R.holds_of_description hv is u

/-! ### Attributes of data -/

theorem holds_timeAttribute {b : Builtin} {name : String} {v : Value}
    (is : timeAttribute? b name = some v) : R.Holds v := by
  unfold timeAttribute? at is
  grind

theorem holds_uuidAttribute {u : Uuid} {name : String} {v : Value}
    (is : uuidAttribute? u name = some v) : R.Holds v := by
  unfold uuidAttribute? at is
  dsimp only at is
  split at is
  case h_11 =>
    obtain ⟨n, -, rfl⟩ := Option.map_eq_some_iff.1 is
    exact R.holds_int _
  case h_8 =>
    cases is
    cases u.version? <;> exact R.atom rfl
  all_goals cases is
  case h_6 =>
    refine R.tuple.2 fun v hv => ?_
    obtain ⟨n, -, rfl⟩ := List.mem_map.1 hv
    exact R.holds_int _
  all_goals first | exact R.atom rfl | exact R.holds_ofClass nofun

theorem holds_dataAttribute {v u : Value} {name : String} (is : dataAttribute? v name = some u) :
    R.Holds u := by
  have uuid := @holds_uuidAttribute R
  have zones (t : Calendar.Timestamp) : R.Holds (t.offset.elim none zone) := by
    cases t.offset <;> exact R.atom rfl
  unfold dataAttribute? at is
  split at is
  all_goals first
    | exact uuid is
    | (cases is; done)
    | (obtain ⟨n, -, rfl⟩ := Option.map_eq_some_iff.1 is; exact R.holds_int _)
    | (cases is; first | exact zones _ | simp)

section

variable (h : R.Covers w) {v : Value} {name : String}

include h

/-! ### Attributes of instances -/

omit h in
theorem holds_elementNames {className : String} (is : elementNames? w className name = some v) :
    R.Holds v := by
  unfold elementNames? at is
  split at is
  · cases is
    refine R.tuple.2 fun u hu => ?_
    obtain ⟨m, -, rfl⟩ := List.mem_map.1 hu
    exact R.holds_str _
  · cases is

omit h in
theorem holds_ownAttribute {className : String} {attributes : List (String × Value)}
    (held : ∀ a ∈ attributes, R.Holds a.2)
    (is : ownAttribute? w className attributes name = some v) : R.Holds v := by
  have own : ∀ a ∈ ownAttributes w className attributes, R.Holds a.2 :=
    fun a ha => held a (List.mem_filter.1 ha).1
  unfold ownAttribute? at is
  dsimp only at is
  split at is
  · cases is
    exact R.dict.2 (holds_entriesOf own)
  · rcases Option.or_eq_some_iff.1 is with is | ⟨-, is⟩
    · exact holds_lookup own is
    · obtain ⟨k, -, is⟩ := Option.bind_eq_some_iff.1 is
      split at is
      · cases is
        split
        · exact R.list.2 nofun
        · exact R.holds_none
      · obtain ⟨m, -, rfl⟩ := Option.map_eq_some_iff.1 is
        exact R.holds_none

omit h in
theorem holds_inheritedAttribute {self : Value} {className : String} (hs : R.Holds self)
    (plain : name ∉ R.hidden) (is : inheritedAttribute? w self className name = some v) :
    R.Holds v := by
  unfold inheritedAttribute? at is
  split at is
  · cases is
    exact R.method.2 ⟨hs, plain⟩
  · split at is
    · next named =>
      cases is
      exact holds_elementNames named
    · split at is
      · obtain ⟨m, -, rfl⟩ := Option.map_eq_some_iff.1 is
        exact R.holds_str m
      · cases is

theorem brings_instanceAttribute {self : Value} {className : String}
    {attributes : List (String × Value)} (hs : R.Holds self)
    (held : ∀ a ∈ attributes, R.Holds a.2) (depth : Nat) (plain : name ∉ R.hidden) :
    Brings R.Holds (instanceAttribute w self className attributes depth name) := by
  induction depth generalizing name with
  | zero => exact brings_error _
  | succ depth ih =>
    unfold instanceAttribute
    dsimp only
    split
    · next p offered =>
      have offers := h.offers _ _ _ offered
      unfold propertyReply
      split
      · next v is => exact (brings_ok _).2 (holds_renewed v (offers.1 v is))
      · next m is => exact ih (offers.2 m is)
      · exact (brings_ok _).2 (R.list.2 nofun)
      · exact brings_error _
    · refine (brings_elim _ _ _).2 ⟨fun _ => brings_error _, fun v is => (brings_ok v).2 ?_⟩
      obtain ⟨m, found, is⟩ := Option.bind_eq_some_iff.1 is
      exact holds_fieldValue h held (List.mem_of_find?_eq_some found) is
    · split
      · next own => exact (brings_ok _).2 (holds_ownAttribute held own)
      · next offered => exact (brings_ok _).2 (h.offers _ _ _ offered)
      · exact (brings_ok _).2 (R.method.2 ⟨hs, plain⟩)
      · refine (brings_elim _ _ _).2 ⟨fun _ => brings_error _, fun v is => (brings_ok v).2 ?_⟩
        exact holds_inheritedAttribute hs plain is

omit h in
theorem brings_found {held : Option Value} (each : ∀ v, held = some v → R.Holds v) :
    Brings R.Holds (found w v name held) := by
  unfold found
  split
  · exact (brings_ok _).2 (each _ rfl)
  · exact brings_error _

theorem brings_objectAttribute {r : Ref} (hr : R.Holds (object r)) (plain : name ∉ R.hidden) :
    Brings R.Holds (objectAttribute w r name) := by
  have held := holds_object h hr
  unfold objectAttribute
  dsimp only
  split
  · exact brings_instanceAttribute h hr held _ plain
  · split
    · exact (brings_ok _).2 (R.dict.2 (holds_entriesOf held))
    · refine brings_found fun v is => ?_
      rcases Option.or_eq_some_iff.1 is with is | ⟨-, is⟩
      · exact holds_lookup held is
      · rcases Option.or_eq_some_iff.1 is with is | ⟨-, is⟩
        · exact h.assigned (type (w.object r).type) _ _ _ (h.objectType r) rfl is
        · split at is
          · obtain ⟨m, -, rfl⟩ := Option.map_eq_some_iff.1 is
            exact R.holds_str m
          · cases is

/-! ### Attributes of classes and of other values -/

theorem holds_recordAttribute {typeName : String} {self : Value} (hs : R.Holds self)
    (plain : name ∉ R.hidden) (is : recordAttribute? w typeName self name = some v) :
    R.Holds v := by
  rcases Option.or_eq_some_iff.1 is with is | ⟨-, is⟩
  · exact h.assigned (type (.record typeName)) _ _ _ (R.recordType typeName) rfl is
  · split at is
    · cases is
      exact R.holds_str _
    · cases is
      exact R.holds_ofClass nofun
    · cases is
      exact R.holds_ofClass nofun
    · cases is
      simp [R.holds_dict, recordDeclared, R.holds_ofClass]
    · cases is
      exact R.holds_none
    · cases is
      exact R.holds_none
    · cases is
      exact R.holds_str _
    · split at is
      · cases is
        exact R.method.2 ⟨hs, plain⟩
      · cases is

omit h in
theorem descriptions_other {b d : Builtin} {names : List String} (h : (d, names) ∈ descriptions b) :
    d ≠ .proxy := by
  rintro rfl
  cases b <;> simp [descriptions] at h

omit h in
theorem holds_builtinAttribute {b : Builtin} (hb : R.Holds (type (.builtin b)))
    (plain : name ∉ R.hidden) (is : builtinAttribute? b name = some v) : R.Holds v := by
  unfold builtinAttribute? at is
  split at is
  · cases is
    exact R.method.2 ⟨hb, plain⟩
  · split at is
    · next found =>
      cases is
      exact R.holds_ofClass (descriptions_other (List.mem_of_find?_eq_some found))
    · exact holds_timeAttribute is

theorem holds_declaredAttribute {className : String} (plain : name ∉ R.hidden)
    (is : declaredAttribute? w className name = some v) : R.Holds v := by
  unfold declaredAttribute? at is
  split at is
  · next offered =>
    cases is
    exact h.offers _ _ _ offered
  · cases is
    exact R.method.2 ⟨R.declared _, plain⟩
  · cases is
    exact R.holds_ofClass nofun
  · cases is
    exact R.holds_ofClass nofun
  · split at is
    · cases is
    · rcases Option.or_eq_some_iff.1 is with is | ⟨-, is⟩
      · exact holds_elementNames is
      · have row : R.Holds (type (.builtin .tuple)) := R.builtin nofun
        exact holds_builtinAttribute row plain is

theorem holds_ancestryAttribute {t : HostType} (ht : R.Holds (type t))
    (is : ancestryAttribute? w t name = some v) : R.Holds v := by
  unfold ancestryAttribute? at is
  dsimp only at is
  split at is
  · cases is
  · split at is
    · cases is
      refine R.tuple.2 fun u hu => ?_
      obtain ⟨t, among, rfl⟩ := List.mem_map.1 hu
      exact h.ancestry _ _ ht (.inl among)
    · cases is
      refine R.tuple.2 fun u hu => ?_
      obtain ⟨t, among, rfl⟩ := List.mem_map.1 hu
      exact h.ancestry _ _ ht (.inr among)
    · cases is
      cases first : (w.classes.basesOf t).head? with
      | none => exact R.holds_none
      | some u => exact h.ancestry _ _ ht (.inr (List.mem_of_mem_head? first))
    · cases is

theorem brings_typeAttribute {t : HostType} (ht : R.Holds (type t)) (plain : name ∉ R.hidden) :
    Brings R.Holds (typeAttribute w t name) := by
  unfold typeAttribute
  refine (brings_elim _ _ _).2 ⟨fun _ => brings_error _, fun v is => (brings_ok v).2 ?_⟩
  rcases Option.or_eq_some_iff.1 is with is | ⟨-, is⟩
  · exact h.assigned _ _ _ _ ht rfl is
  · rcases Option.or_eq_some_iff.1 is with is | ⟨-, is⟩
    · split at is
      · exact holds_builtinAttribute ht plain is
      · exact holds_declaredAttribute h plain is
      · exact holds_recordAttribute h ht plain is
      · cases is
    · split at is
      · cases is
        exact R.holds_str _
      · cases is
        exact R.holds_str _
      · cases is
        exact R.holds_str _
      · exact holds_ancestryAttribute h ht is

omit h in
theorem brings_plainAttribute (hv : R.Holds v) (plain : name ∉ R.hidden) :
    Brings R.Holds (plainAttribute w v name) := by
  unfold plainAttribute
  dsimp only
  split
  · next u is =>
    refine (brings_ok u).2 ?_
    rcases Option.or_eq_some_iff.1 is with is | ⟨-, is⟩
    · exact holds_dataAttribute is
    · obtain ⟨b, -, is⟩ := Option.bind_eq_some_iff.1 is
      split at is
      · cases is
        exact R.method.2 ⟨hv, plain⟩
      · exact holds_timeAttribute is
  · exact brings_error _

theorem holds_generalAttribute {u : Value} (hv : R.Holds v)
    (is : v.generalAttribute? w name = some u) : R.Holds u := by
  unfold generalAttribute? at is
  dsimp only at is
  split at is
  · cases is
    exact holds_typeIn h hv
  · have assigned : ∀ u, ((v.ref? w).map fun r => dict (entriesOf (w.object r).attributes))
        = some u → R.Holds u := by
      intro u is
      obtain ⟨r, ref, rfl⟩ := Option.map_eq_some_iff.1 is
      exact R.dict.2 (holds_entriesOf (h.attributes _ _ hv ref))
    split at is
    · split at is
      · exact assigned u is
      · exact assigned u is
      · exact assigned u is
      · exact assigned u is
      · cases is
        simp
      · cases is
    · split at is
      · cases is
        exact R.holds_str _
      · cases is
      · cases is
        exact (R.method.1 hv).1
      · cases is
        exact R.method.2 ⟨h.objectType _, (R.method.1 hv).2⟩
      case h_8 => cases is
      all_goals
        split at is
        · cases is
          exact R.holds_str _
        · cases is

theorem brings_valueAttribute (hv : R.Holds v) (plain : name ∉ R.hidden) :
    Brings R.Holds (valueAttribute w v name) := by
  unfold valueAttribute
  split
  · split
    · next is => exact (brings_ok _).2 (holds_recordAttribute h hv plain is)
    · next is => exact (brings_ok _).2 (holds_lookup (R.record.1 hv) is)
    · exact brings_error _
  · exact brings_of_description hv rfl _
  · exact brings_of_description hv rfl _
  · exact brings_of_description hv rfl _
  · exact brings_of_description hv rfl _
  · exact brings_typeAttribute h hv plain
  · exact brings_typeAttribute h (R.generic.1 hv).1 plain
  · exact brings_plainAttribute hv plain

/-- What is read of a value at hand is at hand. -/
theorem brings_getAttr (hv : R.Holds v) (plain : name ∉ R.hidden) :
    Brings R.Holds (getAttr w v name) := by
  unfold getAttr
  split
  · exact h.records.read _ _ _ hv plain
  · split
    · exact (brings_ok _).2 (holds_typeIn h hv)
    · exact brings_objectAttribute h hv plain
  · split
    · next u _ is =>
      obtain ⟨r, ref, is⟩ := Option.bind_eq_some_iff.1 is
      exact (brings_ok _).2 (h.assigned _ _ _ _ hv ref is)
    · next is => exact (brings_ok _).2 (holds_generalAttribute h hv is)
    · exact brings_valueAttribute h hv plain

end

end Value

end EntityGraph
