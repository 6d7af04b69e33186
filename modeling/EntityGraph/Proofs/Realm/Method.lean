import EntityGraph.Proofs.Realm.Operation
import EntityGraph.Value.Method

/-!
# Methods and classes in a realm

Methods of values of a realm, called with values of the realm, give such values, and so do classes
that are called: what they give is computed, or taken from the value or from their arguments.
-/

namespace EntityGraph

variable {R : Realm} {w : World}

namespace Value

/-! ## Methods of texts -/

section

variable {medium : Medium}

theorem brings_affixMethod (method : String) (test : List Char → List Char → Bool) (cs : List Char)
    (args : List Value) : Brings R.Holds (affixMethod w medium method test cs args) := by
  have among : ∀ test vs, Brings R.Holds (affixAmong w medium method test vs) := by
    intro test vs
    induction vs with
    | nil => exact (brings_ok _).2 (R.holds_bool _)
    | cons v vs ih =>
      refine (brings_bind _ _).2 fun cs _ => ?_
      split
      · exact (brings_ok _).2 (R.holds_bool _)
      · exact ih
  unfold affixMethod
  grind

theorem brings_replaceMethod (cs : List Char) (args : List Value) :
    Brings R.Holds (replaceMethod w medium cs args) := by
  unfold replaceMethod
  grind

theorem brings_splitMethod (cs : List Char) (args : List Value) :
    Brings R.Holds (splitMethod w medium cs args) := by
  unfold splitMethod
  grind

theorem brings_searchMethod (method : String) (cs : List Char) (args : List Value) :
    Brings R.Holds (searchMethod w medium method cs args) := by
  unfold searchMethod search
  grind

theorem brings_stripMethod (cs : List Char) (args : List Value) :
    Brings R.Holds (stripMethod w medium cs args) := by
  unfold stripMethod
  grind

theorem brings_joinMethod (cs : List Char) (v : Value) :
    Brings R.Holds (joinMethod w medium cs v) := by
  unfold joinMethod
  grind

theorem brings_textMethod (cs : List Char) (name : String) (args : List Value) :
    Brings R.Holds (textMethod w medium cs name args) := by
  have affix := @brings_affixMethod R w medium
  have replace := @brings_replaceMethod R w medium
  have split := @brings_splitMethod R w medium
  have search := @brings_searchMethod R w medium
  have strip := @brings_stripMethod R w medium
  have join := @brings_joinMethod R w medium
  unfold textMethod
  grind

end

/-! ## Methods of collections and of times -/

theorem brings_indexMethod (absent : Value → Outcome Fault) (vs args : List Value) :
    Brings R.Holds (indexMethod w absent vs args) := by
  unfold indexMethod
  grind

theorem brings_listMethod {vs : List Value} (hvs : ∀ v ∈ vs, R.Holds v) (name : String)
    (args : List Value) : Brings R.Holds (listMethod w vs name args) := by
  have index := @brings_indexMethod R w
  unfold listMethod
  grind

theorem brings_tupleMethod (className : String) (vs : List Value) (name : String)
    (args : List Value) : Brings R.Holds (tupleMethod w className vs name args) := by
  have index := @brings_indexMethod R w
  unfold tupleMethod
  grind

theorem holds_getD {o : Option Value} {d : Value} (ho : ∀ u, o = some u → R.Holds u)
    (hd : R.Holds d) : R.Holds (o.getD d) := by
  cases o with
  | none => exact hd
  | some u => exact ho u rfl

theorem brings_dictMethod {remake : List (Value × Value) → Value} {es : List (Value × Value)}
    (hes : ∀ e ∈ es, R.Holds e.1 ∧ R.Holds e.2) (remade : R.Holds (remake es)) (name : String)
    {args : List Value} (hargs : ∀ a ∈ args, R.Holds a) :
    Brings R.Holds (dictMethod w remake es name args) := by
  have entry := brings_entry (w := w) fun e he => (hes e he).2
  unfold dictMethod
  split
  · next k =>
    exact Brings.bind (entry k) fun o ho => (brings_ok _).2 (holds_getD ho (R.holds_none))
  · next k d =>
    exact Brings.bind (entry k) fun o ho => (brings_ok _).2 (holds_getD ho (hargs d (by simp)))
  · exact brings_error _
  · exact (brings_ok _).2 remade
  · exact (brings_ok _).2 (R.holds_ofClass nofun)
  · exact (brings_ok _).2 (R.holds_ofClass nofun)
  · exact (brings_ok _).2 (R.holds_ofClass nofun)
  · exact brings_error _

theorem brings_dateMethod (d : Calendar.Date) (name : String) :
    Brings R.Holds (dateMethod d name) := by
  unfold dateMethod
  grind

theorem brings_timestampMethod (t : Calendar.Timestamp) (name : String) :
    Brings R.Holds (timestampMethod t name) := by
  unfold timestampMethod
  split
  · exact (brings_ok _).2 (R.holds_str _)
  · exact (brings_ok _).2 (R.holds_date _)
  · cases t.offset <;> simp
  · exact (brings_ok _).2 (R.holds_none)
  · cases t.offset <;> simp
  · exact brings_dateMethod _ _

theorem brings_numberMethod (v : Value) (name : String) :
    Brings R.Holds (numberMethod v name) := by
  unfold numberMethod
  grind

theorem brings_plainMethod (v : Value) (name : String) (args : List Value) :
    Brings R.Holds (plainMethod w v name args) := by
  have date := @brings_dateMethod R
  have timestamp := @brings_timestampMethod R
  have number := @brings_numberMethod R
  unfold plainMethod
  grind

theorem brings_makeDate (args : List Value) : Brings R.Holds (makeDate w args) := by
  unfold makeDate
  grind

theorem brings_timestampOfParts (ns : List Int) (offset : Option Int) :
    Brings R.Holds (timestampOfParts ns offset) := by
  unfold timestampOfParts
  grind

theorem brings_makeTimestamp (args : List Value) : Brings R.Holds (makeTimestamp w args) := by
  have parts := @brings_timestampOfParts R
  unfold makeTimestamp
  grind

theorem brings_replaceDate (d : Calendar.Date) (args : List Value) :
    Brings R.Holds (replaceDate w d args) := by
  have date := @brings_makeDate R w
  unfold replaceDate
  grind

theorem brings_replaceTimestamp (t : Calendar.Timestamp) (args : List Value) :
    Brings R.Holds (replaceTimestamp w t args) := by
  have timestamp := @brings_makeTimestamp R w
  unfold replaceTimestamp
  grind

theorem brings_dateOfOrdinal (v : Value) : Brings R.Holds (Primitive.dateOfOrdinal w v) := by
  unfold Primitive.dateOfOrdinal
  grind

theorem brings_callClassMethod (b : Builtin) (name : String) (args : List Value) :
    Brings R.Holds (callClassMethod w b name args) := by
  unfold callClassMethod
  split
  · exact brings_dateOfOrdinal _
  · refine Brings.bind (@brings_dateOfOrdinal R w _) fun v hv => ?_
    split
    · exact (brings_ok _).2 (R.holds_timestamp _)
    · exact (brings_ok _).2 hv
  · exact brings_error _
  · exact brings_error _

/-! ## Methods of other values -/

section

variable (h : R.Covers w) {v : Value} {args : List Value} (hargs : ∀ a ∈ args, R.Holds a)

include h hargs

theorem brings_callOwn (hv : R.Holds v) {name : String} (plain : name ∉ R.hidden) :
    Brings R.Holds (callOwn w v name args) := by
  unfold callOwn
  split
  · exact brings_textMethod _ _ _
  · exact brings_textMethod _ _ _
  · exact brings_listMethod (R.list.1 hv) _ _
  · exact brings_dictMethod (R.dict.1 hv) hv _ hargs
  · have entries := R.entries hv
    exact brings_dictMethod entries (R.ordered entries) _ hargs
  · have entries := holds_entriesOf (R.record.1 hv)
    exact brings_dictMethod entries (R.ordered entries) _ hargs
  · exact h.records.method _ _ _ _ hv plain hargs
  · exact brings_of_description hv rfl _
  · exact brings_of_description hv rfl _
  · exact brings_of_description hv rfl _
  · split
    · exact brings_replaceDate _ _
    · exact brings_replaceTimestamp _ _
    · split
      · exact brings_tupleMethod _ _ _ _
      · exact brings_plainMethod _ _ _

theorem brings_reply {self : Value} (hs : R.Holds self) {r : Reply}
    (fits : (∀ v, r = .value v → R.Holds v) ∧ ∀ n, r = .attribute n → n ∉ R.hidden) :
    Brings R.Holds (reply w self args r) := by
  unfold reply
  split
  · exact (brings_ok _).2 (holds_renewed _ (fits.1 _ rfl))
  · exact brings_getAttr h hs (fits.2 _ rfl)
  · exact (brings_ok _).2 (R.list.2 hargs)

theorem brings_callUnbound (b : Builtin) {name : String} (plain : name ∉ R.hidden) :
    Brings R.Holds (callUnbound w b name args) := by
  unfold callUnbound
  split
  · exact brings_error _
  · rw [List.forall_mem_cons] at hargs
    split
    · split
      · exact brings_tupleMethod _ _ _ _
      · exact brings_callOwn h hargs.2 hargs.1 plain
    · exact brings_error _

theorem brings_callDeclared (className name : String) :
    Brings R.Holds (callDeclared w className name args) := by
  unfold callDeclared
  split
  · next offered =>
    rw [List.forall_mem_cons] at hargs
    exact brings_reply h hargs.2 hargs.1 (h.methods _ _ _ offered)
  · exact brings_error _
  · exact brings_error _

/-- What a method of a value at hand gives is at hand. -/
theorem brings_callMethod (hv : R.Holds v) {name : String} (plain : name ∉ R.hidden) :
    Brings R.Holds (callMethod w v name args) := by
  unfold callMethod
  split
  · split
    · exact brings_callClassMethod _ _ _
    · exact brings_callUnbound h hargs _ plain
  · exact brings_callDeclared h hargs _ _
  · exact brings_callUnbound h hargs _ plain
  · split
    · next offered =>
      obtain ⟨className, -, offered⟩ := Option.bind_eq_some_iff.1 offered
      exact brings_reply h hargs hv (h.methods _ _ _ offered)
    · exact brings_callOwn h hargs hv plain

end

/-! ## Classes of data -/

theorem brings_toInteger (v : Value) : Brings R.Holds (toInteger w v) := by
  unfold toInteger readInteger
  grind

theorem brings_toIntegerIn (v base : Value) : Brings R.Holds (toIntegerIn w v base) := by
  unfold toIntegerIn readInteger
  grind

theorem brings_toDouble (v : Value) : Brings R.Holds (toDouble w v) := by
  unfold toDouble
  grind

theorem brings_toComplex (v : Value) : Brings R.Holds (toComplex w v) := by
  unfold toComplex
  grind

theorem brings_toComplexOf (re im : Value) : Brings R.Holds (toComplexOf w re im) := by
  unfold toComplexOf
  grind

theorem brings_ofWritten (d : Option DecimalFloat) : Brings R.Holds (ofWritten d) := by
  unfold ofWritten
  grind

theorem brings_toDecimal (v : Value) : Brings R.Holds (toDecimal w v) := by
  have written := @brings_ofWritten R
  unfold toDecimal
  grind

theorem brings_decodeBytes (v : Value) (args : List Value) :
    Brings R.Holds (decodeBytes w v args) := by
  unfold decodeBytes
  refine (brings_bind _ _).2 fun name _ => ?_
  split <;> simp

theorem brings_encodeText (v : Value) (args : List Value) :
    Brings R.Holds (encodeText w v args) := by
  unfold encodeText
  refine (brings_bind _ _).2 fun name _ => ?_
  split <;> simp

theorem brings_toBytes (v : Value) : Brings R.Holds (toBytes w v) := by
  unfold toBytes
  grind

theorem brings_uuidOfBytes (v : Value) : Brings R.Holds (uuidOfBytes w v) := by
  unfold uuidOfBytes
  grind

theorem brings_readUuid (v : Value) : Brings R.Holds (Primitive.readUuid w v) := by
  unfold Primitive.readUuid
  grind

theorem brings_makeUuid (args : List Value) : Brings R.Holds (makeUuid w args) := by
  have read := @brings_readUuid R w
  have ofBytes := @brings_uuidOfBytes R w
  unfold makeUuid
  grind

/-! ## Classes of collections -/

section

variable (h : R.Covers w) {v : Value} {args : List Value} (hv : R.Holds v)

include h

omit h in
theorem brings_putPairs {split : Nat → Value → Outcome (List Value)}
    (each : ∀ i v, R.Holds v → Brings (fun vs => ∀ u ∈ vs, R.Holds u) (split i v)) (i : Nat)
    {es : List (Value × Value)} (hes : ∀ e ∈ es, R.Holds e.1 ∧ R.Holds e.2) {ps : List Value}
    (hps : ∀ p ∈ ps, R.Holds p) :
    Brings (fun fs => ∀ e ∈ fs, R.Holds e.1 ∧ R.Holds e.2) (putPairs w split i es ps) := by
  induction ps generalizing i es with
  | nil => exact (brings_ok _).2 hes
  | cons p ps ih =>
    rw [List.forall_mem_cons] at hps
    refine Brings.bind (each i p hps.1) fun vs hvs => ?_
    refine (brings_bind _ _).2 fun pair is => ?_
    have within : R.Holds pair.1 ∧ R.Holds pair.2 := by
      unfold pairOf at is
      split at is
      · cases is
        exact ⟨hvs _ (by simp), hvs _ (by simp)⟩
      · cases is
    exact Brings.bind (brings_putEntry hes within.1 within.2) fun fs hfs => ih (i + 1) hfs hps.2

include hv

theorem brings_toEntries :
    Brings (fun es => ∀ e ∈ es, R.Holds e.1 ∧ R.Holds e.2) (toEntries w v) := by
  unfold toEntries
  split
  · next view => exact (brings_ok _).2 (holds_entriesView hv view)
  · exact brings_error _
  · refine Brings.bind (brings_elements h hv) fun ps hps => ?_
    refine brings_putPairs (fun i p hp => ?_) 0 (by simp) hps
    unfold splitPair
    split
    · next found => exact (brings_ok _).2 (holds_elements? h hp found)
    · exact brings_error _

theorem brings_toOrderedEntries :
    Brings (fun es => ∀ e ∈ es, R.Holds e.1 ∧ R.Holds e.2) (toOrderedEntries w v) := by
  unfold toOrderedEntries
  split
  · next view => exact (brings_ok _).2 (holds_entriesView hv view)
  · refine Brings.bind (brings_elements h hv) fun ps hps => ?_
    exact brings_putPairs (fun i p hp => brings_elements h hp) 0 (by simp) hps

theorem brings_makeRecord (typeName : String) : Brings R.Holds (makeRecord w typeName v) := by
  unfold makeRecord
  refine Brings.bind (brings_toOrderedEntries h hv) fun es hes => ?_
  have named : ∀ f ∈ es.map fun e => (e.1.plain w, e.2), R.Holds f.2 := by
    intro f hf
    obtain ⟨e, he, rfl⟩ := List.mem_map.1 hf
    exact (hes e he).2
  dsimp only
  split
  · exact (brings_ok _).2 (R.record.2 named)
  · exact brings_error _

theorem brings_constructOne (b : Builtin) : Brings R.Holds (constructOne w b v) := by
  have elements := brings_elements h hv
  unfold constructOne
  split
  · exact (brings_bind _ _).2 fun _ _ => (brings_ok _).2 (R.holds_bool _)
  · exact brings_toDouble _
  · exact Brings.bind elements fun vs hvs => (brings_ok _).2 (R.list.2 hvs)
  · exact Brings.bind elements fun vs hvs => (brings_ok _).2 (R.tuple.2 hvs)
  · exact Brings.bind (brings_toEntries h hv) fun es hes => (brings_ok _).2 (R.dict.2 hes)
  · refine Brings.bind (brings_toOrderedEntries h hv) fun es hes => ?_
    exact (brings_ok _).2 (R.ordered hes)
  · exact Brings.bind elements fun vs hvs => brings_makeSet hvs

omit h hv in
theorem holds_constructEmpty (b : Builtin) : R.Holds (constructEmpty b) := by
  unfold constructEmpty
  split
  case h_11 => exact R.ordered (by simp)
  case h_13 => exact R.holds_ofClass nofun
  all_goals simp

omit hv in
theorem brings_constructBuiltin (hargs : ∀ a ∈ args, R.Holds a) (b : Builtin) :
    Brings R.Holds (constructBuiltin w b args) := by
  unfold constructBuiltin
  dsimp only
  split
  · exact brings_makeDate _
  · exact brings_makeTimestamp _
  · exact (brings_ok _).2 (holds_typeIn h (hargs _ (by simp)))
  · exact brings_error _
  · exact brings_makeUuid _
  · exact brings_error _
  · exact (brings_ok _).2 (holds_constructEmpty _)
  · exact brings_toInteger _
  · exact brings_toIntegerIn _ _
  · exact brings_error _
  · exact brings_toComplex _
  · exact brings_toComplexOf _ _
  · exact brings_error _
  · exact brings_toDecimal _
  · exact brings_toDecimal _
  · exact brings_error _
  · exact brings_error _
  · exact (brings_bind _ _).2 fun _ _ => (brings_ok _).2 (R.holds_str _)
  · split
    · exact brings_error _
    · exact brings_decodeBytes _ _
  · exact brings_toBytes _
  · split
    · exact brings_error _
    · exact brings_encodeText _ _
  · exact brings_error _
  · exact brings_error _
  · exact brings_constructOne h (hargs _ (by simp)) _
  · exact brings_error _
  · split
    · exact brings_constructOne h (hargs _ (by simp)) _
    · exact brings_error _
  · exact brings_error _

end

/-! ## Functions that come with the library -/

section

open Primitive

variable (h : R.Covers w) {v : Value} {vs : List Value} (hvs : ∀ v ∈ vs, R.Holds v)

include h

theorem brings_narrowed (hv : R.Holds v) : Brings R.Holds (narrowed w v) := by
  unfold narrowed
  split
  · exact (brings_ok _).2 (R.holds_int _)
  · refine Brings.bind (brings_operate h .add hv (R.holds_int _)) fun shifted hs => ?_
    refine Brings.bind (brings_operate h .mod hs (R.holds_int _)) fun wrapped hw => ?_
    exact brings_operate h .sub hw (R.holds_int _)

theorem brings_reversed (hv : R.Holds v) : Brings R.Holds (reversed w v) := by
  unfold reversed
  split
  · exact (brings_ok _).2 (R.holds_str _)
  · exact (brings_ok _).2 (R.list.2 fun u hu => R.list.1 hv u (List.mem_reverse.1 hu))
  · exact (brings_ok _).2 (R.holds_bytes _)
  · exact brings_error _
  · exact brings_error _
  · exact brings_error _
  · split
    · next view =>
      refine (brings_ok _).2 (R.tuple.2 fun u hu => ?_)
      exact holds_tupleView h hv view u (List.mem_reverse.1 hu)
    · exact brings_readItem h hv (R.holds_ofClass nofun)

include hvs

theorem brings_total {start : Value} (hs : R.Holds start) :
    Brings R.Holds (total w vs start) := by
  unfold total
  split
  · exact brings_error _
  · exact brings_error _
  · exact brings_foldlM hs fun a ha b hb => brings_operate h .add ha (hvs b hb)

omit h in
theorem brings_greatest : Brings R.Holds (greatest w vs) := by
  unfold greatest
  split
  · exact brings_error _
  · rw [List.forall_mem_cons] at hvs
    refine brings_foldlM hvs.1 fun best hb u hu => ?_
    refine (brings_bind _ _).2 fun _ _ => (brings_bind _ _).2 fun b _ => ?_
    split
    · exact (brings_ok _).2 (hvs.2 u hu)
    · exact (brings_ok _).2 hb

omit h hvs in
theorem brings_absolute (v : Value) : Brings R.Holds (absolute w v) := by
  have ofDecimal := @brings_ofDecimal R
  have spanOf := @brings_spanOf R
  unfold absolute
  split
  case h_3 z _ => cases z.abs? <;> simp
  all_goals grind

omit h hvs in
theorem brings_rounded (v : Value) : Brings R.Holds (rounded v) := by
  unfold rounded
  split <;> simp

omit h hvs in
theorem brings_readDate (v : Value) : Brings R.Holds (readDate w v) := by
  refine (brings_bind _ _).2 fun t _ => ?_
  dsimp only
  split
  · exact (brings_ok _).2 (R.holds_date _)
  · exact brings_error _

omit h hvs in
theorem brings_readTimestamp (v : Value) : Brings R.Holds (readTimestamp w v) := by
  refine (brings_bind _ _).2 fun t _ => ?_
  dsimp only
  split
  · exact (brings_ok _).2 (R.holds_timestamp _)
  · exact brings_error _

end

end Value

end EntityGraph
