import EntityGraph.Proofs.Realm.Calm
import EntityGraph.Proofs.Realm.Method
import EntityGraph.Eval.Sorting
import EntityGraph.Script.Capture
import EntityGraph.Value.Assignment

/-!
# Faults of methods and classes in a realm

Asking for attributes of values of a realm, calling their methods and making instances of classes of
them ends in faults that the realm allows.
-/

namespace EntityGraph

variable {α β : Type} {R : Realm}

/-! ## Faults of calls -/

namespace Fault

@[simp, grind .] theorem ordinary_argumentCount (function : String) (params : List String)
    (defaults given : Nat) : (argumentCount function params defaults given).IsOrdinary := by
  unfold argumentCount
  dsimp only
  split <;> exact .told rfl

@[simp, grind .] theorem ordinary_tooMany (function : String) (most given : Nat) :
    (tooMany function most given).IsOrdinary :=
  .told rfl

@[simp, grind .] theorem ordinary_expected (function : String) (least most given : Nat) :
    (expected function least most given).IsOrdinary :=
  .told rfl

@[simp, grind .] theorem ordinary_notInteger (typeName : String) :
    (notInteger typeName).IsOrdinary :=
  .told rfl

@[simp, grind .] theorem ordinary_takesNone (method : String) (given : Nat) :
    (takesNone method given).IsOrdinary :=
  .told rfl

@[simp, grind .] theorem ordinary_takesOne (method : String) (given : Nat) :
    (takesOne method given).IsOrdinary :=
  .told rfl

@[simp, grind .] theorem ordinary_notModelled (method : String) :
    (notModelled method).IsOrdinary :=
  .told rfl

end Fault

namespace Value

@[simp, grind .] theorem ordinary_noAttribute (w : World) (v : Value) (name : String) :
    (noAttribute w v name).IsOrdinary :=
  .told rfl

/-! ## Methods of texts -/

section

variable (w : World) (medium : Medium)

@[simp] theorem calm_limitArgument (v : Value) : R.Calm (limitArgument w v) := by
  unfold limitArgument
  grind

@[simp] theorem calm_sliceArguments (orNone : Bool) (xs : List α) (bounds : List Value) :
    R.Calm (sliceArguments orNone xs bounds) := by
  have place : ∀ size otherwise v, R.Calm (placeArgument size orNone otherwise v) := by
    intro size otherwise v
    unfold placeArgument
    grind
  unfold sliceArguments
  simp [*]

@[simp] theorem calm_charsOr (textFault : String) (v : Value) :
    R.Calm (charsOr w medium textFault v) := by
  unfold charsOr
  grind

@[simp] theorem calm_affixMethod (method : String) (test : List Char → List Char → Bool)
    (cs : List Char) (args : List Value) : R.Calm (affixMethod w medium method test cs args) := by
  have among : ∀ test vs, R.Calm (affixAmong w medium method test vs) := by
    intro test vs
    induction vs with simp [affixAmong, *]
  have bounds := fun vs => calm_sliceArguments (R := R) true cs vs
  unfold affixMethod
  grind

@[simp] theorem calm_replaceMethod (cs : List Char) (args : List Value) :
    R.Calm (replaceMethod w medium cs args) := by
  have limit := @calm_limitArgument R w
  have part := @calm_charsOr R w medium
  unfold replaceMethod replacedArgument
  split
  · split <;> grind
  · grind

@[simp] theorem calm_splitMethod (cs : List Char) (args : List Value) :
    R.Calm (splitMethod w medium cs args) := by
  have limitArgument := @calm_limitArgument R
  have charsOr := @calm_charsOr R
  unfold splitMethod
  grind

@[simp] theorem calm_joinMethod (cs : List Char) (v : Value) :
    R.Calm (joinMethod w medium cs v) := by
  have element : ∀ v place, R.Calm (joinedElement w medium v place) := by
    intro v place
    unfold joinedElement
    grind
  unfold joinMethod
  grind

@[simp] theorem calm_searchMethod (method : String) (cs : List Char) (args : List Value) :
    R.Calm (searchMethod w medium method cs args) := by
  have place : ∀ cs before part, R.Calm (search medium method cs before part) := by
    intro cs before part
    unfold search
    repeat' split
    all_goals simp
  have part : ∀ v, R.Calm (sought w medium v) := by
    intro v
    unfold sought
    grind
  have bounds := fun vs => calm_sliceArguments (R := R) true cs vs
  unfold searchMethod
  grind

@[simp] theorem calm_stripMethod (cs : List Char) (args : List Value) :
    R.Calm (stripMethod w medium cs args) := by
  have charsOr := @calm_charsOr R
  unfold stripMethod
  grind

@[simp] theorem calm_textMethod (cs : List Char) (name : String) (args : List Value) :
    R.Calm (textMethod w medium cs name args) := by
  have affixMethod := @calm_affixMethod R
  have replaceMethod := @calm_replaceMethod R
  have splitMethod := @calm_splitMethod R
  have searchMethod := @calm_searchMethod R
  have stripMethod := @calm_stripMethod R
  have joinMethod := @calm_joinMethod R
  unfold textMethod
  grind

end

/-! ## Attributes -/

@[simp] theorem calm_recordMember (w : World) (u : Value) (name : String) :
    R.Calm (recordMember w u name) := by
  have asked : R.Allows (.proxyProtocol name) := R.ordinary (.told rfl)
  unfold recordMember
  simp [asked]

@[simp] theorem calm_recordSymbol (w : World) (op left right : Value) :
    R.Calm (recordSymbol w op left right) := by
  unfold recordSymbol
  simp

section

variable {w : World} (h : R.Covers w) {u : Value} {mark : Nat} (hu : R.Holds (proxy u mark))
  {args : List Value} (hargs : ∀ a ∈ args, R.Holds a)

include h hu hargs

theorem calm_applyProxyMethod (name : String) :
    R.Calm (applyProxyMethod w u mark name args) := by
  have recordSymbol := @calm_recordSymbol R w
  have invert := @calm_invert R w
  have negate := @calm_negate R w
  have tellShown := @calm_tellShown R w
  have recordMember := @calm_recordMember R w
  have recordBinary := @calm_recordBinary R w
  have allowed := R.proxies hu
  have unassigned (n : String) : R.Allows (.proxyAssignment n) := R.ordinary (.told rfl)
  unfold applyProxyMethod
  dsimp only
  split
  case h_14 => exact calm_readItem h hu (hargs _ (by simp))
  case h_15 =>
    have operate (op : ScriptOp) := calm_operate h op hu (hargs _ (List.mem_singleton.2 rfl))
    grind
  all_goals grind

theorem calm_callProxyMethod (name : String) :
    R.Calm (callProxyMethod w u mark name args) := by
  have applied := calm_applyProxyMethod h hu hargs
  unfold callProxyMethod
  grind

end

@[simp] theorem calm_proxyAttribute (w : World) (u : Value) (mark : Nat) (name : String) :
    R.Calm (proxyAttribute w u mark name) := by
  unfold proxyAttribute
  simp

@[simp] theorem calm_instanceAttribute (w : World) (self : Value) (className : String)
    (attributes : List (String × Value)) (depth : Nat) (name : String) :
    R.Calm (instanceAttribute w self className attributes depth name) := by
  induction depth generalizing name with
  | zero => simp [instanceAttribute]
  | succ depth ih =>
    have property : ∀ p, R.Calm (propertyReply
        (instanceAttribute w self className attributes depth) p) := by
      intro p
      unfold propertyReply
      split <;> simp [*]
    have absent : R.Allows (noAttribute w self name) := R.ordinary (ordinary_noAttribute _ _ _)
    unfold instanceAttribute
    grind

@[simp] theorem calm_plainAttribute (w : World) (v : Value) (name : String) :
    R.Calm (plainAttribute w v name) := by
  unfold plainAttribute
  grind

@[simp] theorem calm_typeAttribute (w : World) (t : HostType) (name : String) :
    R.Calm (typeAttribute w t name) := by
  unfold typeAttribute
  grind

@[simp] theorem calm_found (w : World) (v : Value) (name : String) (held : Option Value) :
    R.Calm (found w v name held) := by
  unfold found
  grind

@[simp] theorem calm_objectAttribute (w : World) (r : Ref) (name : String) :
    R.Calm (objectAttribute w r name) := by
  have instanceAttribute := @calm_instanceAttribute R w
  have found := @calm_found R w
  unfold objectAttribute
  grind

@[simp] theorem calm_valueAttribute (w : World) (v : Value) (name : String) :
    R.Calm (valueAttribute w v name) := by
  have absent (t : String) : R.Allows (.recordAttribute t name) := R.ordinary (.told rfl)
  unfold valueAttribute
  repeat' split
  all_goals simp [absent]

@[simp] theorem calm_getAttr (w : World) (v : Value) (name : String) :
    R.Calm (getAttr w v name) := by
  unfold getAttr
  split
  · exact calm_proxyAttribute w _ _ name
  · simp
  · split
    · exact calm_ok _
    · exact calm_ok _
    · exact calm_valueAttribute w v name

end Value

/-! ## Functions that come with the library -/

namespace Primitive

@[simp] theorem calm_needText (w : World) (v : Value) : R.Calm (needText w v) := by
  unfold needText
  grind

@[simp] theorem calm_readTime (w : World) (v : Value) : R.Calm (readTime w v) := by
  have needText := @calm_needText R w
  unfold readTime
  grind

@[simp] theorem calm_readDate (w : World) (v : Value) : R.Calm (readDate w v) := by
  unfold readDate
  refine (calm_bind _ _).2 ⟨calm_readTime w v, fun t _ => ?_⟩
  dsimp only
  split
  · exact calm_ok _
  · exact (calm_error _).2 (R.ordinary (.told rfl))

@[simp] theorem calm_readTimestamp (w : World) (v : Value) : R.Calm (readTimestamp w v) := by
  unfold readTimestamp
  refine (calm_bind _ _).2 ⟨calm_readTime w v, fun t _ => ?_⟩
  dsimp only
  split
  · exact calm_ok _
  · exact (calm_error _).2 (R.ordinary (.told rfl))

theorem calm_readUuid {w : World} {v : Value} (hv : R.Holds v) : R.Calm (readUuid w v) := by
  unfold readUuid
  split
  case h_6 => exact (calm_error _).2 (R.proxies hv).2.1
  all_goals grind

theorem calm_narrowed {w : World} (h : R.Covers w) {v : Value} (hv : R.Holds v) :
    R.Calm (narrowed w v) := by
  unfold narrowed
  split
  · exact calm_ok _
  · refine (Value.calm_operate h _ hv (R.holds_int _)).bind
      (Value.brings_operate h .add hv (R.holds_int _)) fun shifted hs => ?_
    refine (Value.calm_operate h _ hs (R.holds_int _)).bind
      (Value.brings_operate h .mod hs (R.holds_int _)) fun wrapped hw => ?_
    exact Value.calm_operate h _ hw (R.holds_int _)

@[simp] theorem calm_rounded (v : Value) : R.Calm (rounded v) := by
  unfold rounded
  split <;> simp

theorem calm_reversed {w : World} (h : R.Covers w) {v : Value} (hv : R.Holds v) :
    R.Calm (reversed w v) := by
  have backwards := Value.calm_readItem h hv (R.holds_ofClass (b := .slice) nofun)
  unfold reversed
  grind

@[simp] theorem calm_dateOfOrdinal (w : World) (v : Value) : R.Calm (dateOfOrdinal w v) := by
  unfold dateOfOrdinal
  grind

@[simp] theorem calm_absolute (w : World) (v : Value) : R.Calm (absolute w v) := by
  have ofDecimal := @Value.calm_ofDecimal R
  have spanOf := @Value.calm_spanOf R
  unfold absolute
  grind

section

variable {w : World} (h : R.Covers w) {vs : List Value} (hvs : ∀ v ∈ vs, R.Holds v)

include h hvs

theorem calm_total {start : Value} (hs : R.Holds start) : R.Calm (total w vs start) := by
  unfold total
  split
  · simp
  · simp
  · exact calm_foldlM hs (fun a ha b hb => Value.brings_operate h .add ha (hvs b hb))
      fun a ha b hb => Value.calm_operate h .add ha (hvs b hb)

theorem calm_greatest : R.Calm (greatest w vs) := by
  unfold greatest
  split
  · simp
  · rw [List.forall_mem_cons] at hvs
    refine calm_foldlM hvs.1 (fun best hb u hu => ?_) fun best hb u hu => ?_
    · refine (brings_bind _ _).2 fun _ _ => (brings_bind _ _).2 fun b _ => ?_
      split
      · exact (brings_ok _).2 (hvs.2 u hu)
      · exact (brings_ok _).2 hb
    · refine (Value.calm_operate h .gt (hvs.2 u hu) hb).bind
        (Value.brings_operate h .gt (hvs.2 u hu) hb) fun answer ha => ?_
      refine (calm_bind _ _).2 ⟨Value.calm_truth ha, fun b _ => ?_⟩
      split <;> exact calm_ok _

end

end Primitive

namespace Value

/-! ## Classes -/

@[simp] theorem calm_readInteger (base : Nat) (s : String) : R.Calm (readInteger base s) := by
  unfold readInteger
  split <;> simp

@[simp] theorem calm_toInteger (w : World) (v : Value) : R.Calm (toInteger w v) := by
  have readInteger := @calm_readInteger R
  have wholePart := @calm_wholePart? R
  unfold toInteger
  grind

@[simp] theorem calm_toIntegerIn (w : World) (v base : Value) :
    R.Calm (toIntegerIn w v base) := by
  have readInteger := @calm_readInteger R
  unfold toIntegerIn
  grind

@[simp] theorem calm_toDouble (w : World) (v : Value) : R.Calm (toDouble w v) := by
  have realPart := @calm_realPart? R
  unfold toDouble
  grind

@[simp] theorem calm_complexPart? (v : Value) : R.Calm (complexPart? v) := by
  unfold complexPart?
  split <;> simp

@[simp] theorem calm_toComplex (w : World) (v : Value) : R.Calm (toComplex w v) := by
  have complexPart := @calm_complexPart? R
  unfold toComplex
  grind

@[simp] theorem calm_toComplexOf (w : World) (re im : Value) : R.Calm (toComplexOf w re im) := by
  have realPart := @calm_realPart? R
  unfold toComplexOf
  grind

@[simp, grind .] theorem ordinary_notTriple : notTriple.IsOrdinary :=
  .told rfl

@[simp] theorem calm_ensureWord (n : Int) : R.Calm (ensureWord n) := by
  unfold ensureWord
  simp

@[simp] theorem calm_tripleNumber (limit : Int) (v : Value) : R.Calm (tripleNumber limit v) := by
  have ensureWord := @calm_ensureWord R
  unfold tripleNumber
  grind

@[simp] theorem calm_tripleDigits (w : World) (v : Value) : R.Calm (tripleDigits w v) := by
  have number := @calm_tripleNumber R
  unfold tripleDigits
  split
  · exact calm_foldlM (P := fun _ => True) trivial (fun _ _ _ _ _ _ => trivial) (by simp [*])
  · grind

@[simp] theorem calm_ofTriple (w : World) (vs : List Value) : R.Calm (ofTriple w vs) := by
  unfold ofTriple
  split
  · refine (calm_bind _ _).2 ⟨calm_tripleNumber _ _, fun n _ => ?_⟩
    split
    · dsimp only
      split
      · exact (calm_error _).2 (R.ordinary ordinary_notTriple)
      · refine (calm_bind _ _).2 ⟨calm_tripleDigits _ _, fun payload _ => ?_⟩
        refine (calm_elim _ _ _).2 ⟨fun _ => ?_, fun _ _ => calm_ok _⟩
        exact (calm_error _).2 (R.ordinary ordinary_notTriple)
    · split
      · simp
      · exact (calm_error _).2 (R.ordinary ordinary_notTriple)
  · grind

@[simp] theorem calm_ofWritten (d : Option DecimalFloat) : R.Calm (ofWritten d) := by
  unfold ofWritten
  grind

@[simp] theorem calm_toDecimal (w : World) (v : Value) : R.Calm (toDecimal w v) := by
  have ofWritten := @calm_ofWritten R
  have ofTriple := @calm_ofTriple R w
  unfold toDecimal
  grind

@[simp] theorem calm_namedArgument (w : World) (className argument : String) (v : Value) :
    R.Calm (namedArgument w className argument v) := by
  unfold namedArgument
  grind

@[simp] theorem calm_codingName (w : World) (className : String) (args : List Value) :
    R.Calm (codingName w className args) := by
  have further : ∀ vs : List Value,
      R.Calm (vs.forM fun v => do let _ ← namedArgument w className "errors" v) := by
    intro vs
    induction vs with
    | nil => exact calm_ok _
    | cons v vs ih =>
      refine (calm_bind _ _).2 ⟨?_, fun _ _ => ih⟩
      exact (calm_bind _ _).2 ⟨calm_namedArgument _ _ _ _, fun _ _ => calm_ok _⟩
  have namedArgument := @calm_namedArgument R w
  unfold codingName
  grind

@[simp] theorem calm_codingOf (name : String) : R.Calm (codingOf name) := by
  unfold codingOf
  simp

@[simp] theorem calm_decodeBytes (w : World) (v : Value) (args : List Value) :
    R.Calm (decodeBytes w v args) := by
  have codingName := @calm_codingName R w
  have codingOf := @calm_codingOf R
  unfold decodeBytes
  grind

@[simp] theorem calm_encodeText (w : World) (v : Value) (args : List Value) :
    R.Calm (encodeText w v args) := by
  have codingName := @calm_codingName R w
  have codingOf := @calm_codingOf R
  unfold encodeText
  grind

@[simp] theorem calm_toByte (w : World) (v : Value) : R.Calm (toByte w v) := by
  unfold toByte
  grind

@[simp] theorem calm_toBytes (w : World) (v : Value) : R.Calm (toBytes w v) := by
  have toByte := @calm_toByte R w
  unfold toBytes
  grind

@[simp] theorem calm_pairOf (vs : List Value) : R.Calm (pairOf vs) := by
  unfold pairOf
  split <;> simp

theorem brings_pairOf {vs : List Value} (hvs : ∀ v ∈ vs, R.Holds v) :
    Brings (fun p => R.Holds p.1 ∧ R.Holds p.2) (pairOf vs) := by
  unfold pairOf
  split <;> simp_all

theorem brings_splitPair {w : World} (h : R.Covers w) (i : Nat) {v : Value} (hv : R.Holds v) :
    Brings (fun vs => ∀ u ∈ vs, R.Holds u) (splitPair w i v) := by
  unfold splitPair
  split
  · next found => exact (brings_ok _).2 (holds_elements? h hv found)
  · exact brings_error _

@[simp] theorem calm_splitPair (w : World) (i : Nat) (v : Value) : R.Calm (splitPair w i v) := by
  unfold splitPair
  grind

section

variable {w : World} (h : R.Covers w) {v : Value} (hv : R.Holds v)

include h

theorem calm_putPairs {split : Nat → Value → Outcome (List Value)}
    (each : ∀ i v, R.Holds v → R.Calm (split i v))
    (brings : ∀ i v, R.Holds v → Brings (fun vs => ∀ u ∈ vs, R.Holds u) (split i v)) (i : Nat)
    {es : List (Value × Value)} (hes : ∀ e ∈ es, R.Holds e.1 ∧ R.Holds e.2) {ps : List Value}
    (hps : ∀ p ∈ ps, R.Holds p) : R.Calm (putPairs w split i es ps) := by
  induction ps generalizing i es with
  | nil => exact calm_ok _
  | cons p ps ih =>
    rw [List.forall_mem_cons] at hps
    refine (each i p hps.1).bind (brings i p hps.1) fun vs hvs => ?_
    refine (calm_pairOf vs).bind (brings_pairOf hvs) fun pair hp => ?_
    refine (calm_putEntry h (fun e he => (hes e he).1) hp.1 pair.2).bind
      (brings_putEntry hes hp.1 hp.2) fun fs hfs => ?_
    exact ih (i + 1) hfs hps.2

include hv

theorem calm_toEntries : R.Calm (toEntries w v) := by
  unfold toEntries
  split
  · exact calm_ok _
  · simp
  · refine (calm_elements hv).bind (brings_elements h hv) fun ps hps => ?_
    exact calm_putPairs h (fun i v _ => calm_splitPair w i v)
      (fun i v hv => brings_splitPair h i hv) 0 (by simp) hps

theorem calm_toOrderedEntries : R.Calm (toOrderedEntries w v) := by
  unfold toOrderedEntries
  split
  · exact calm_ok _
  · refine (calm_elements hv).bind (brings_elements h hv) fun ps hps => ?_
    exact calm_putPairs h (fun i v hv => calm_elements hv) (fun i v hv => brings_elements h hv) 0
      (by simp) hps

theorem calm_makeRecord (typeName : String) : R.Calm (makeRecord w typeName v) := by
  have entries := calm_toOrderedEntries h hv
  have other (unexpected : List Value) (members : List String) :
      R.Allows (.recordMembers typeName unexpected members) := R.ordinary (.told rfl)
  unfold makeRecord
  grind

end

@[simp] theorem calm_timeNumbers (w : World) (args : List Value) :
    R.Calm (timeNumbers w args) := by
  unfold timeNumbers
  grind

@[simp, grind .] theorem ordinary_missingPart (given : Nat) : (missingPart given).IsOrdinary :=
  .told rfl

@[simp, grind .] theorem ordinary_outOfRange : outOfRange.IsOrdinary :=
  .told rfl

@[simp, grind .] theorem ordinary_functionTakes (most given : Nat) :
    (Fault.functionTakes most given).IsOrdinary :=
  .told rfl

@[simp] theorem calm_dateOfParts (ns : List Int) : R.Calm (dateOfParts ns) := by
  unfold dateOfParts
  split
  · exact (calm_elim _ _ _).2 ⟨fun _ => by grind, fun _ _ => calm_ok _⟩
  · grind

@[simp] theorem calm_makeDate (w : World) (args : List Value) : R.Calm (makeDate w args) := by
  have timeNumbers := @calm_timeNumbers R w
  have dateOfParts := @calm_dateOfParts R
  unfold makeDate
  grind

@[simp] theorem calm_timestampOfParts (ns : List Int) (offset : Option Int) :
    R.Calm (timestampOfParts ns offset) := by
  unfold timestampOfParts
  refine (calm_bind _ _).2 ⟨calm_dateOfParts _, fun d _ => ?_⟩
  dsimp only
  split
  · exact calm_ok _
  · grind

@[simp] theorem calm_makeTimestamp (w : World) (args : List Value) :
    R.Calm (makeTimestamp w args) := by
  have timeNumbers := @calm_timeNumbers R w
  have timestampOfParts := @calm_timestampOfParts R
  unfold makeTimestamp
  grind

@[simp] theorem calm_uuidOfBytes (w : World) (v : Value) : R.Calm (uuidOfBytes w v) := by
  unfold uuidOfBytes
  split <;> simp

section

variable {w : World} (h : R.Covers w) {args : List Value} (hargs : ∀ a ∈ args, R.Holds a)

include h

theorem calm_makeUuid (hargs : ∀ a ∈ args, R.Holds a) : R.Calm (makeUuid w args) := by
  have readUuid {v : Value} := Primitive.calm_readUuid (R := R) (w := w) (v := v)
  have uuidOfBytes := @calm_uuidOfBytes R w
  unfold makeUuid
  split
  · simp
  · refine Realm.Calm.bind (P := (· ⊆ args)) ?_ ?_ fun given sub => ?_
    · refine calm_filterM _ _ fun v hv => ?_
      simpa using calm_same h (hargs v (List.mem_of_mem_take hv)) R.holds_none
    · exact (brings_filterM _ _).mono fun given sub =>
        List.Subset.trans sub (List.take_subset 5 args)
    · split
      · next v _ _ =>
        split
        · exact readUuid R.holds_none
        · exact uuidOfBytes _
      · exact readUuid (hargs _ (sub (by simp)))
      · exact readUuid R.holds_none

theorem calm_constructOne (b : Builtin) {v : Value} (hv : R.Holds v) :
    R.Calm (constructOne w b v) := by
  have truth := calm_truth (w := w) hv
  have elements := calm_elements (w := w) hv
  have entries := calm_toEntries h hv
  have ordered := calm_toOrderedEntries h hv
  have toDouble := @calm_toDouble R w v
  unfold constructOne
  split
  case h_7 =>
    exact elements.bind (brings_elements h hv) fun vs hvs => calm_makeSet h hvs
  all_goals simp [*]

theorem calm_constructBuiltin (b : Builtin) (hargs : ∀ a ∈ args, R.Holds a) :
    R.Calm (constructBuiltin w b args) := by
  have makeDate := @calm_makeDate R w
  have makeTimestamp := @calm_makeTimestamp R w
  have toInteger := @calm_toInteger R w
  have toIntegerIn := @calm_toIntegerIn R w
  have toComplex := @calm_toComplex R w
  have toComplexOf := @calm_toComplexOf R w
  have toDecimal := @calm_toDecimal R w
  have tellPlain := @calm_tellPlain R w
  have decodeBytes := @calm_decodeBytes R w
  have toBytes := @calm_toBytes R w
  have encodeText := @calm_encodeText R w
  have makeUuid := calm_makeUuid h hargs
  have constructOne (b : Builtin) (v : Value) (hv : R.Holds v) := calm_constructOne h b hv
  unfold constructBuiltin
  grind

end

/-! ## Methods -/

section

variable {w : World} (h : R.Covers w) {vs args : List Value} (hvs : ∀ v ∈ vs, R.Holds v)
  (hargs : ∀ a ∈ args, R.Holds a)

include h

theorem calm_findSame {v : Value} (hv : R.Holds v) (i : Nat) {vs : List Value}
    (hvs : ∀ v ∈ vs, R.Holds v) : R.Calm (findSame w v i vs) := by
  induction vs generalizing i with
  | nil => exact calm_ok _
  | cons u us ih =>
    rw [List.forall_mem_cons] at hvs
    refine (calm_bind _ _).2 ⟨calm_same h hvs.1 hv, fun b _ => ?_⟩
    split
    · exact calm_ok _
    · exact ih _ hvs.2

theorem calm_countSame {v : Value} (hv : R.Holds v) {vs : List Value}
    (hvs : ∀ v ∈ vs, R.Holds v) : R.Calm (countSame w v vs) := by
  unfold countSame
  refine calm_foldlM (P := fun _ => True) trivial (fun _ _ _ _ _ _ => trivial) fun n _ u hu => ?_
  refine (calm_bind _ _).2 ⟨calm_same h (hvs u hu) hv, fun b _ => ?_⟩
  split <;> exact calm_ok _

omit h in
theorem brings_sliceArguments (orNone : Bool) (xs : List α) (bounds : List Value) :
    Brings (fun p => p.1.getD [] ⊆ xs) (sliceArguments orNone xs bounds) := by
  refine (brings_bind _ _).2 fun start _ => (brings_bind _ _).2 fun stop _ => ?_
  refine (brings_ok _).2 ?_
  dsimp only
  split
  · exact List.Subset.trans (List.drop_subset _ _) (List.take_subset _ _)
  · exact List.nil_subset _

include hvs hargs

theorem calm_indexMethod {absent : Value → Outcome Fault} (tells : ∀ v, R.Calm (absent v))
    (told : ∀ v f, absent v = .ok f → f.IsOrdinary) : R.Calm (indexMethod w absent vs args) := by
  unfold indexMethod
  split
  · simp
  · next v bounds =>
    split
    · simp
    · refine (calm_sliceArguments _ _ _).bind (brings_sliceArguments _ _ _) fun part sub => ?_
      have among : ∀ u ∈ part.1.getD [], R.Holds u := fun u hu => hvs u (sub hu)
      refine (calm_bind _ _).2 ⟨calm_findSame h (hargs v (by simp)) _ among, fun found _ => ?_⟩
      split
      · exact calm_ok _
      · exact (calm_bind _ _).2 ⟨tells v, fun f hf => by simp [told v f hf]⟩

theorem calm_listMethod (name : String) : R.Calm (listMethod w vs name args) := by
  unfold listMethod
  split
  · refine calm_indexMethod h hvs hargs (fun v => ?_) fun v f is => ?_
    · exact (calm_bind _ _).2 ⟨calm_tellShown w v, fun _ _ => calm_ok _⟩
    · obtain ⟨text, -, is⟩ := outcome_bind_ok is
      cases is
      exact ordinary_host _ _
  · have count := calm_countSame h (hargs _ (List.mem_singleton.2 rfl)) hvs
    grind
  all_goals grind

theorem calm_tupleMethod (className : String) (name : String) :
    R.Calm (tupleMethod w className vs name args) := by
  unfold tupleMethod
  split
  · refine calm_indexMethod h hvs hargs (fun v => calm_ok _) fun v f is => ?_
    cases is
    exact ordinary_host _ _
  · have count := calm_countSame h (hargs _ (List.mem_singleton.2 rfl)) hvs
    grind
  all_goals grind

omit hvs in
theorem calm_dictMethod (remake : List (Value × Value) → Value) {es : List (Value × Value)}
    (hes : ∀ e ∈ es, R.Holds e.1 ∧ R.Holds e.2) (name : String) :
    R.Calm (dictMethod w remake es name args) := by
  have keyEntry {k : Value} (hk : k ∈ args) :=
    calm_keyEntry h (fun e he => (hes e he).1) (hargs k hk)
  unfold dictMethod
  grind

end

@[simp] theorem calm_dateMethod (d : Calendar.Date) (name : String) :
    R.Calm (dateMethod d name) := by
  unfold dateMethod
  grind

@[simp] theorem calm_timestampMethod (t : Calendar.Timestamp) (name : String) :
    R.Calm (timestampMethod t name) := by
  unfold timestampMethod
  split <;> simp

@[simp] theorem calm_numberMethod (v : Value) (name : String) :
    R.Calm (numberMethod v name) := by
  unfold numberMethod
  grind

@[simp] theorem calm_plainMethod (w : World) (v : Value) (name : String) (args : List Value) :
    R.Calm (plainMethod w v name args) := by
  have dateMethod := @calm_dateMethod R
  have timestampMethod := @calm_timestampMethod R
  have numberMethod := @calm_numberMethod R
  unfold plainMethod
  grind

@[simp] theorem calm_replaceDate (w : World) (d : Calendar.Date) (args : List Value) :
    R.Calm (replaceDate w d args) := by
  have makeDate := @calm_makeDate R w
  unfold replaceDate
  grind

@[simp] theorem calm_replaceTimestamp (w : World) (t : Calendar.Timestamp) (args : List Value) :
    R.Calm (replaceTimestamp w t args) := by
  have makeTimestamp := @calm_makeTimestamp R w
  unfold replaceTimestamp
  grind

@[simp] theorem calm_schemaMethod (w : World) (v : Value) (name : String) (args : List Value) :
    R.Calm (schemaMethod w v name args) := by
  unfold schemaMethod
  grind

@[simp] theorem calm_reply (w : World) (self : Value) (args : List Value) (r : Reply) :
    R.Calm (reply w self args r) := by
  unfold reply
  split <;> simp

@[simp] theorem calm_callClassMethod (w : World) (b : Builtin) (name : String)
    (args : List Value) : R.Calm (callClassMethod w b name args) := by
  have dateOfOrdinal := @Primitive.calm_dateOfOrdinal R w
  unfold callClassMethod
  grind

section

variable {w : World} (h : R.Covers w) {v : Value} {args : List Value}
  (hargs : ∀ a ∈ args, R.Holds a)

include h hargs

theorem calm_callOwn (hv : R.Holds v) (name : String) : R.Calm (callOwn w v name args) := by
  unfold callOwn
  split
  · simp
  · simp
  · exact calm_listMethod h (R.list.1 hv) hargs name
  · exact calm_dictMethod h hargs _ (R.dict.1 hv) name
  · exact calm_dictMethod h hargs _ (R.entries hv) name
  · exact calm_dictMethod h hargs _ (holds_entriesOf (R.record.1 hv)) name
  · exact calm_callProxyMethod h hv hargs name
  · simp
  · simp
  · simp
  · split
    · simp
    · simp
    · split
      · next view => exact calm_tupleMethod h (holds_tupleView h hv view) hargs _ name
      · simp

theorem calm_callUnbound (b : Builtin) (name : String) : R.Calm (callUnbound w b name args) := by
  unfold callUnbound
  split
  · simp
  · rw [List.forall_mem_cons] at hargs
    split
    · split
      · next view => exact calm_tupleMethod h (holds_tupleView h hargs.1 ‹_›) hargs.2 _ name
      · exact calm_callOwn h hargs.2 hargs.1 name
    · simp

omit h hargs in
@[simp] theorem calm_callDeclared (w : World) (className name : String) (args : List Value) :
    R.Calm (callDeclared w className name args) := by
  have reply := @calm_reply R w
  unfold callDeclared
  grind

theorem calm_callMethod (hv : R.Holds v) (name : String) : R.Calm (callMethod w v name args) := by
  have unbound (b : Builtin) := calm_callUnbound h hargs b name
  have own := calm_callOwn h hargs hv name
  unfold callMethod
  repeat' split
  all_goals simp [*]

end

/-! ## Assignments -/

@[simp, grind .] theorem ordinary_unsettable : unsettable.IsOrdinary :=
  .told rfl

@[simp, grind .] theorem ordinary_wrongSort (name sort : String) :
    (wrongSort name sort).IsOrdinary :=
  .told rfl

@[simp, grind .] theorem ordinary_wrongClass : wrongClass.IsOrdinary :=
  .told rfl

@[simp] theorem calm_attributesIn (v : Value) : R.Calm (attributesIn v) := by
  unfold attributesIn
  grind

@[simp] theorem calm_ensureRelated (w : World) (className name : String) (v : Value) :
    R.Calm (ensureRelated w className name v) := by
  unfold ensureRelated
  grind

@[simp] theorem calm_withAttribute (w : World) (className : String) (o : ObjectDecl)
    (name : String) (v : Value) : R.Calm (withAttribute w className o name v) := by
  have attributesIn := @calm_attributesIn R
  have ensureRelated := @calm_ensureRelated R w
  unfold withAttribute
  grind

@[simp] theorem calm_putAny (o : ObjectDecl) (name : String) (v : Value) :
    R.Calm (putAny o name v) := by
  unfold putAny
  simp

@[simp] theorem calm_assignedObject (w : World) (o : ObjectDecl) (name : String) (v : Value) :
    R.Calm (assignedObject w o name v) := by
  have withAttribute := @calm_withAttribute R w
  have putAny := @calm_putAny R
  unfold assignedObject
  grind

@[simp] theorem calm_ensureSort (name sort : String) (fits : Bool) :
    R.Calm (ensureSort name sort fits) := by
  unfold ensureSort
  grind

@[simp] theorem calm_ensureTypeTakes (t : HostType) (name : String) (v : Value) :
    R.Calm (ensureTypeTakes t name v) := by
  have ensureSort := @calm_ensureSort R
  unfold ensureTypeTakes
  grind

@[simp] theorem calm_ensureFunctionTakes (name : String) (v : Value) :
    R.Calm (ensureFunctionTakes name v) := by
  have ensureSort := @calm_ensureSort R
  unfold ensureFunctionTakes
  grind

@[simp] theorem calm_ensureTakes (w : World) (target : Value) (name : String) (v : Value) :
    R.Calm (ensureTakes w target name v) := by
  have ensureTypeTakes := @calm_ensureTypeTakes R
  have ensureFunctionTakes := @calm_ensureFunctionTakes R
  unfold ensureTakes
  grind

theorem calm_arity {w : World} {v : Value} (hv : R.Holds v) : R.Calm (v.arity w) := by
  have silent (n : Option Nat) : R.Calm (n.elim (.error arity.silentFault) .ok : Outcome Nat) := by
    cases n with
    | none => exact (calm_error _).2 (R.ordinary (ordinary_host _ _))
    | some n => exact calm_ok n
  unfold arity
  split
  case h_8 => exact (calm_error _).2 (R.proxies hv).2.1
  all_goals grind [calm_tellShown]

end Value

end EntityGraph
