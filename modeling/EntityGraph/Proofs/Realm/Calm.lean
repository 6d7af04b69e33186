import EntityGraph.Proofs.Realm.Operation

/-!
# Faults of operations in a realm

Operations on values of a realm end in faults that the realm allows. Proxies alone refuse to be
compared and counted with, and a scope alone has no value for a parameter; so all the other faults are
ordinary. That is shown here for operators and collections, one operation after the other, each from
the operations it is made of.
-/

namespace EntityGraph

variable {α β : Type} {R : Realm}

/-- Whether an outcome is a result or a fault that is allowed in a realm. -/
def Realm.Calm (R : Realm) (x : Outcome α) : Prop := FaultsIn R.Allows x

/-- Whether comparing values of a realm ends in faults of the realm. -/
def Realm.Compares (R : Realm) (eq : Value → Value → Outcome Bool) : Prop :=
  ∀ u v, R.Holds u → R.Holds v → R.Calm (eq u v)

/-! ## How outcomes are put together -/

@[simp, grind .] theorem calm_ok (a : α) : R.Calm (.ok a : Outcome α) := faultsIn_ok a

@[simp, grind =] theorem calm_error (e : Fault) : R.Calm (.error e : Outcome α) ↔ R.Allows e :=
  ⟨fun h => h e rfl, faultsIn_error⟩

@[simp, grind =] theorem calm_bind (x : Outcome α) (f : α → Outcome β) :
    R.Calm (x >>= f) ↔ R.Calm x ∧ ∀ a, x = .ok a → R.Calm (f a) := by
  refine ⟨fun h => ⟨?_, ?_⟩, fun h => faultsIn_bind h.1 h.2⟩
  · rintro e rfl
    exact h e rfl
  · rintro a rfl
    exact h

theorem Realm.Calm.bind {x : Outcome α} {f : α → Outcome β} {P : α → Prop} (hx : R.Calm x)
    (brings : Brings P x) (hf : ∀ a, P a → R.Calm (f a)) : R.Calm (x >>= f) :=
  (calm_bind x f).2 ⟨hx, fun a is => hf a (brings a is)⟩

@[simp] theorem calm_pure (a : α) : R.Calm (pure a : Outcome α) := faultsIn_ok a

@[simp] theorem calm_map (x : Outcome α) (f : α → β) : R.Calm (f <$> x) ↔ R.Calm x := by
  cases x <;> simp [Functor.map, Except.map, calm_ok, calm_error]

@[simp] theorem calm_ite (c : Prop) [Decidable c] (x y : Outcome α) :
    R.Calm (if c then x else y) ↔ (c → R.Calm x) ∧ (¬c → R.Calm y) := by
  split <;> simp [*]

@[simp, grind =] theorem calm_elim (o : Option β) (x : Outcome α) (f : β → Outcome α) :
    R.Calm (o.elim x f) ↔ (o = none → R.Calm x) ∧ ∀ b, o = some b → R.Calm (f b) := by
  cases o <;> simp

@[simp, grind =] theorem calm_getD (o : Option (Outcome α)) (x : Outcome α) :
    R.Calm (o.getD x) ↔ (o = none → R.Calm x) ∧ ∀ y, o = some y → R.Calm y := by
  cases o <;> simp

@[simp, grind .] theorem calm_mapM (as : List α) (f : α → Outcome β)
    (h : ∀ a ∈ as, R.Calm (f a)) : R.Calm (as.mapM f) :=
  faultsIn_mapM as h

theorem calm_foldlM {as : List α} {f : β → α → Outcome β} {b : β} {P : β → Prop} (start : P b)
    (each : ∀ b, P b → ∀ a ∈ as, Brings P (f b a)) (h : ∀ b, P b → ∀ a ∈ as, R.Calm (f b a)) :
    R.Calm (as.foldlM f b) := by
  induction as generalizing b with
  | nil => exact calm_ok b
  | cons a as ih =>
    rw [List.foldlM_cons]
    refine (h b start a (by simp)).bind (each b start a (by simp)) fun c hc => ?_
    exact ih hc (fun b hb a' ha' => each b hb a' (by simp [ha'])) fun b hb a' ha' =>
      h b hb a' (by simp [ha'])

@[simp, grind .] theorem calm_filterM (as : List α) (f : α → Outcome Bool)
    (h : ∀ a ∈ as, R.Calm (f a)) : R.Calm (as.filterM f) := by
  have each : ∀ (as : List α) kept, (∀ a ∈ as, R.Calm (f a)) → R.Calm (as.filterAuxM f kept) := by
    intro as
    induction as with
    | nil => exact fun kept _ => calm_ok kept
    | cons a as ih =>
      intro kept h
      refine faultsIn_bind (h a (by simp)) fun b _ => ?_
      exact ih _ fun a' ha' => h a' (by simp [ha'])
  exact faultsIn_bind (each as [] h) fun kept _ => faultsIn_ok _

@[grind =] theorem isOrdinary_iff (e : Fault) :
    e.IsOrdinary ↔ (∀ p, e ≠ .unbound p) ∧ e ≠ .proxyTruth ∧ e ≠ .proxyIteration :=
  ⟨fun h => ⟨h.bound, h.truth, h.iteration⟩, fun h => ⟨h.1, h.2.1, h.2.2⟩⟩

@[simp, grind ←] theorem allows_of_ordinary {e : Fault} (h : e.IsOrdinary) : R.Allows e :=
  R.ordinary h

@[simp, grind .] theorem ordinary_tree (f : TreeFault Value) : (Fault.tree f).IsOrdinary :=
  .told rfl

@[simp, grind .] theorem ordinary_wrongType (text : String) :
    (Fault.wrongType text).IsOrdinary := .told rfl

@[simp, grind .] theorem ordinary_decimal (f : DecimalFault) : f.toFault.IsOrdinary := by
  cases f <;> exact .told rfl

/-! ## Numbers -/

namespace Quantity

@[simp] theorem calm_equal (x y : Quantity) : R.Calm (x.equal y) := by
  unfold equal
  split <;> grind [decimalEqual]

@[simp] theorem calm_compare? (x y : Quantity) : R.Calm (x.compare? y) := by
  unfold compare?
  split <;> grind

end Quantity

namespace Value

@[simp] theorem calm_toFloat (n : Int) : R.Calm (toFloat n) := by
  unfold toFloat
  split <;> simp

@[simp] theorem calm_numbers? (a b : Value) : R.Calm (numbers? a b) := by
  unfold numbers?
  split <;> simp

@[simp] theorem calm_wholePart? (v : Value) : R.Calm v.wholePart? := by
  unfold wholePart?
  repeat' split
  all_goals simp

@[simp] theorem calm_realPart? (v : Value) : R.Calm v.realPart? := by
  unfold realPart?
  repeat' split
  all_goals simp

@[simp] theorem calm_ofDecimal (x : Except DecimalFault DecimalFloat) :
    R.Calm (ofDecimal x) := by
  cases x with
  | ok d => exact calm_ok _
  | error f => exact (calm_error _).2 (R.ordinary (ordinary_decimal f))

/-! ## Equality and order

Comparing values compares what they are made of, which is itself a computation that may fail. -/

@[simp] theorem calm_fieldValues (className : String) (fs : List (String × Option Value)) :
    R.Calm (fieldValues className fs) := by
  refine calm_mapM _ _ fun f _ => ?_
  simp [Fault.unset]

section

variable {test : Value → Outcome Bool} {eq same : Value → Value → Outcome Bool}

theorem calm_findEntry {es : List (Value × Value)} (each : ∀ e ∈ es, R.Calm (test e.1)) :
    R.Calm (findEntry test es) := by
  induction es with
  | nil => exact calm_ok _
  | cons e es ih =>
    rw [List.forall_mem_cons] at each
    refine (calm_bind _ _).2 ⟨each.1, fun b _ => ?_⟩
    split
    · exact calm_ok _
    · exact ih each.2

theorem calm_anyPasses {vs : List Value} (each : ∀ v ∈ vs, R.Calm (test v)) :
    R.Calm (anyPasses test vs) := by
  induction vs with
  | nil => exact calm_ok _
  | cons v vs ih =>
    rw [List.forall_mem_cons] at each
    refine (calm_bind _ _).2 ⟨each.1, fun b _ => ?_⟩
    split
    · exact calm_ok _
    · exact ih each.2

section

variable (each : R.Compares eq)

include each

theorem calm_allEqual {us vs : List Value} (hus : ∀ u ∈ us, R.Holds u)
    (hvs : ∀ v ∈ vs, R.Holds v) : R.Calm (allEqual eq us vs) := by
  fun_induction allEqual with
  | case2 u us v vs ih =>
    rw [List.forall_mem_cons] at hus hvs
    refine (calm_bind _ _).2 ⟨each u v hus.1 hvs.1, fun b _ => ?_⟩
    split
    · exact ih hus.2 hvs.2
    · exact calm_ok _
  | _ => exact calm_ok _

theorem calm_allAmong {us vs : List Value} (hus : ∀ u ∈ us, R.Holds u)
    (hvs : ∀ v ∈ vs, R.Holds v) : R.Calm (allAmong eq us vs) := by
  induction us with
  | nil => exact calm_ok _
  | cons u us ih =>
    rw [List.forall_mem_cons] at hus
    refine (calm_bind _ _).2 ⟨calm_anyPasses fun v hv => each u v hus.1 (hvs v hv), fun b _ => ?_⟩
    split
    · exact ih hus.2
    · exact calm_ok _

theorem calm_entriesWithin {es fs : List (Value × Value)}
    (hes : ∀ e ∈ es, R.Holds e.1 ∧ R.Holds e.2) (hfs : ∀ f ∈ fs, R.Holds f.1 ∧ R.Holds f.2) :
    R.Calm (entriesWithin eq es fs) := by
  induction es with
  | nil => exact calm_ok _
  | cons e es ih =>
    rw [List.forall_mem_cons] at hes
    refine (calm_findEntry fun f hf => each e.1 f.1 hes.1.1 (hfs f hf).1).bind
      (brings_findEntry fun f hf => (hfs f hf).2) fun o ho => ?_
    split
    · refine (calm_bind _ _).2 ⟨each _ e.2 (ho _ rfl) hes.1.2, fun b _ => ?_⟩
      split
      · exact ih hes.2
      · exact calm_ok _
    · exact calm_ok _

theorem calm_entriesEqual {a b : List (Value × Value) × Bool}
    (ha : ∀ e ∈ a.1, R.Holds e.1 ∧ R.Holds e.2) (hb : ∀ e ∈ b.1, R.Holds e.1 ∧ R.Holds e.2) :
    R.Calm (entriesEqual eq a b) := by
  have keys (es : List (Value × Value)) (hes : ∀ e ∈ es, R.Holds e.1 ∧ R.Holds e.2) :
      ∀ k ∈ es.map (·.1), R.Holds k := by
    intro k hk
    obtain ⟨e, he, rfl⟩ := List.mem_map.1 hk
    exact (hes e he).1
  unfold entriesEqual
  dsimp only
  split
  · exact calm_ok _
  · refine (calm_bind _ _).2 ⟨calm_entriesWithin each ha hb, fun _ _ => ?_⟩
    split
    · exact calm_ok _
    · split
      · exact calm_allEqual each (keys _ ha) (keys _ hb)
      · exact calm_ok _

theorem calm_recordsEqual {a b : Option (String × List (String × Option Value))}
    (ha : ∀ p, a = some p → ∀ f ∈ p.2, ∀ v, f.2 = some v → R.Holds v)
    (hb : ∀ p, b = some p → ∀ f ∈ p.2, ∀ v, f.2 = some v → R.Holds v) :
    R.Calm (recordsEqual eq a b) := by
  unfold recordsEqual
  split
  · next c xs d ys =>
    split
    · refine (calm_fieldValues _ _).bind (brings_fieldValues (ha _ rfl)) fun us hus => ?_
      refine (calm_fieldValues _ _).bind (brings_fieldValues (hb _ rfl)) fun vs hvs => ?_
      exact calm_allEqual each hus hvs
    · exact calm_ok _
  · exact calm_ok _

end

/-- Whoever holds an expression holds everything, and so whatever its literals are. -/
theorem calm_exprEqual (each : ∀ u v, R.Calm (eq u v)) (each' : ∀ u v, R.Calm (same u v))
    (all : ∀ v, R.Holds v) (depth : Nat) (shared : Bool) (a b : Expr Value) :
    R.Calm (exprEqual eq same depth shared a b) := by
  induction depth generalizing shared a b with
  | zero => simp [exprEqual]
  | succ depth ih =>
    have literal : ∀ u v, R.Calm ((if shared then same else eq) u v) := by split <;> simp [*]
    have values (us vs : List Value) : R.Calm (allEqual same us vs) :=
      calm_allEqual (fun u v _ _ => each' u v) (fun u _ => all u) fun v _ => all v
    have group {g : Bool → Expr Value × Expr Value → Outcome Bool}
        (pair : ∀ ok p, R.Calm (g ok p)) (ps : List (Expr Value × Expr Value)) :
        R.Calm (ps.foldlM g true) :=
      calm_foldlM (P := fun _ => True) trivial (fun _ _ _ _ _ _ => trivial)
        fun ok _ p _ => pair ok p
    unfold exprEqual
    dsimp only
    split <;> simp [*]

end

section

variable {w : World} (h : R.Covers w)

include h

theorem calm_equalTo (depth : Nat) : R.Compares (equalTo w depth) := by
  induction depth with
  | zero => exact fun a b _ _ => by simp [equalTo]
  | succ depth ih =>
    have same : R.Compares fun x y => if identical x y then .ok true else equalTo w depth x y := by
      intro x y hx hy
      simp [ih x y hx hy]
    have lists {us vs : List Value} (hus : ∀ u ∈ us, R.Holds u) (hvs : ∀ v ∈ vs, R.Holds v) :=
      calm_allEqual same hus hvs
    intro a b ha hb
    unfold equalTo
    dsimp only
    split
    case h_1 | h_3 => exact (calm_error _).2 (R.proxies ‹_›).2.1
    case h_6 => 
      have := lists (R.list.1 ha) (R.list.1 hb)
      grind
    case h_7 => 
      have := calm_allAmong same (R.set.1 ha) (R.set.1 hb)
      grind
    case h_15 => 
      have := lists (R.generic.1 ha).2 (R.generic.1 hb).2
      grind
    case h_18 =>
      have all := R.all rfl ha
      exact calm_exprEqual (fun u v => ih u v (all u) (all v))
        (fun u v => same u v (all u) (all v)) all _ _ _ _
    case h_23 =>
      split
      · exact Quantity.calm_equal _ _
      · split
        · next view view' =>
          exact calm_entriesEqual same (holds_entriesView ha view) (holds_entriesView hb view')
        · split
          · next view view' =>
            have := lists (holds_tupleView h ha view) (holds_tupleView h hb view')
            grind
          · split
            · exact calm_ok _
            · exact calm_recordsEqual same (fun p => holds_recordView h ha)
                fun p => holds_recordView h hb
    all_goals exact calm_ok _

variable {a b : Value} (ha : R.Holds a) (hb : R.Holds b)

include ha hb

theorem calm_same : R.Calm (same w a b) := by
  unfold same equal
  split
  · exact calm_ok _
  · exact calm_equalTo h _ a b ha hb

end

@[simp] theorem calm_tellShown (w : World) (v : Value) : R.Calm (v.tellShown w) := by
  unfold tellShown
  cases fault : v.illegible? w with
  | none => exact calm_ok _
  | some f => exact (calm_error f).2 (R.ordinary (mundane_illegible w v f fault).2)

@[simp] theorem calm_tellPlain (w : World) (v : Value) : R.Calm (v.tellPlain w) := by
  have shown := calm_tellShown (R := R) w v
  unfold tellShown at shown
  unfold tellPlain
  cases found : v.illegible? w <;> grind

@[simp, grind .] theorem ordinary_noOrder (w : World) (r : Relation) (a b : Value) :
    (noOrder w r a b).IsOrdinary :=
  .told rfl

@[simp] theorem calm_compareAtoms? (a b : Value) : R.Calm (compareAtoms? a b) := by
  have times : R.Calm (compareTimes? a b) := by
    unfold compareTimes?
    grind
  unfold compareAtoms?
  repeat' split
  all_goals simp [*]

section

variable {w : World} (h : R.Covers w)

include h

theorem calm_firstDifference {us vs : List Value} (hus : ∀ u ∈ us, R.Holds u)
    (hvs : ∀ v ∈ vs, R.Holds v) : R.Calm (firstDifference w us vs) := by
  fun_induction firstDifference w us vs with
  | case1 u us v vs ih =>
    rw [List.forall_mem_cons] at hus hvs
    refine (calm_bind _ _).2 ⟨calm_same h hus.1 hvs.1, fun b _ => ?_⟩
    split
    · exact ih hus.2 hvs.2
    · exact calm_ok _
  | case2 => exact calm_ok _

omit h in
theorem brings_firstDifference {us vs : List Value} (hus : ∀ u ∈ us, R.Holds u)
    (hvs : ∀ v ∈ vs, R.Holds v) :
    Brings (fun o => ∀ p, o = some p → R.Holds p.1 ∧ R.Holds p.2) (firstDifference w us vs) := by
  fun_induction firstDifference w us vs with
  | case1 u us v vs ih =>
    rw [List.forall_mem_cons] at hus hvs
    refine (brings_bind _ _).2 fun b _ => ?_
    split
    · exact ih hus.2 hvs.2
    · refine (brings_ok _).2 fun p is => ?_
      cases is
      exact ⟨hus.1, hvs.1⟩
  | case2 => exact (brings_ok _).2 nofun

theorem holds_sequences {a b : Value} (ha : R.Holds a) (hb : R.Holds b)
    {p : List Value × List Value} (is : sequences? w a b = some p) :
    (∀ u ∈ p.1, R.Holds u) ∧ ∀ v ∈ p.2, R.Holds v := by
  unfold sequences? at is
  split at is
  · cases is
    exact ⟨R.list.1 ha, R.list.1 hb⟩
  · split at is
    · next view view' =>
      cases is
      exact ⟨holds_tupleView h ha view, holds_tupleView h hb view'⟩
    · cases is

theorem calm_relatedTo (r : Relation) (depth : Nat) : R.Compares (relatedTo w r depth) := by
  induction depth with
  | zero => exact fun a b _ _ => by simp [relatedTo]
  | succ depth ih =>
    intro a b ha hb
    unfold relatedTo
    refine (calm_bind _ _).2 ⟨calm_compareAtoms? a b, fun o _ => ?_⟩
    split
    · exact calm_ok _
    · split
      · have same : R.Compares (same w) := fun u v hu hv => calm_same h hu hv
        have up := calm_allAmong same (R.set.1 ha) (R.set.1 hb)
        have down := calm_allAmong same (R.set.1 hb) (R.set.1 ha)
        unfold relatedSets
        split <;> simp [*]
      · split
        · next xs ys view =>
          obtain ⟨hxs, hys⟩ := holds_sequences h ha hb view
          refine (calm_firstDifference h hxs hys).bind (brings_firstDifference hxs hys)
            fun o ho => ?_
          split
          · exact ih _ _ (ho _ rfl).1 (ho _ rfl).2
          · exact calm_ok _
        · simp

end

/-! ## Collections -/

theorem calm_elements {w : World} {v : Value} (hv : R.Holds v) : R.Calm (v.elements w) := by
  unfold elements
  split
  · exact (calm_error _).2 (R.proxies hv).2.2
  · exact calm_ok _
  · split <;> simp

@[simp] theorem calm_length (w : World) (v : Value) : R.Calm (v.length w) := by
  unfold length
  grind

theorem calm_truth {w : World} {v : Value} (hv : R.Holds v) : R.Calm (v.truth w) := by
  unfold truth
  split
  case h_8 => exact (calm_error _).2 (R.proxies hv).2.1
  all_goals exact calm_ok _

@[simp, grind .] theorem ordinary_notKey (w : World) (v : Value) : (notKey w v).IsOrdinary :=
  .told rfl

@[simp, grind .] theorem ordinary_notBytes (w : World) (v : Value) :
    (Fault.notBytes w v).IsOrdinary :=
  .told rfl

section

variable {w : World} (h : R.Covers w) {es : List (Value × Value)} {key value v : Value}
  {vs : List Value}

include h

theorem calm_keyEntry (hes : ∀ e ∈ es, R.Holds e.1) (hk : R.Holds key) :
    R.Calm <| entry? w es key := by
  unfold entry?
  split
  · exact calm_findEntry fun e he => calm_same h (hes e he) hk
  · simp

theorem calm_putEntry (hes : ∀ e ∈ es, R.Holds e.1) (hk : R.Holds key) (value : Value) :
    R.Calm (putEntry w es key value) := by
  unfold putEntry
  refine (calm_bind _ _).2 ⟨calm_keyEntry h hes hk, fun found _ => ?_⟩
  split
  · exact calm_ok _
  · refine calm_mapM _ _ fun e he => (calm_bind _ _).2 ⟨calm_same h (hes e he) hk, fun b _ => ?_⟩
    split <;> exact calm_ok _

theorem calm_anySame (hv : R.Holds v) (hvs : ∀ u ∈ vs, R.Holds u) : R.Calm (anySame w v vs) :=
  calm_anyPasses fun u hu => calm_same h (hvs u hu) hv

theorem calm_makeSet (hvs : ∀ v ∈ vs, R.Holds v) : R.Calm (makeSet w vs) := by
  unfold makeSet
  refine (calm_bind _ _).2 ⟨?_, fun _ _ => calm_ok _⟩
  refine calm_foldlM (P := fun found => ∀ v ∈ found, R.Holds v) nofun (fun found hf v hv => ?_)
    fun found hf v hv => ?_
  · split
    · exact brings_error _
    · refine (brings_bind _ _).2 fun b _ => ?_
      split
      · exact (brings_ok _).2 hf
      · refine (brings_ok _).2 (List.forall_mem_append.2 ⟨hf, ?_⟩)
        exact List.forall_mem_singleton.2 (hvs v hv)
  · split
    · simp
    · refine (calm_bind _ _).2 ⟨calm_anySame h (hvs v hv) hf, fun b _ => ?_⟩
      split <;> exact calm_ok _

theorem calm_contains {container : Value} (hc : R.Holds container) (hv : R.Holds v) :
    R.Calm (contains w container v) := by
  have keyEntry {es : List (Value × Value)} (hes : ∀ e ∈ es, R.Holds e.1 ∧ R.Holds e.2) :=
    calm_keyEntry h (fun e he => (hes e he).1) hv
  unfold contains
  split
  · grind
  · grind
  · simpa using keyEntry (R.dict.1 hc)
  · simpa using keyEntry (R.entries hc)
  · simpa using keyEntry (holds_entriesOf (R.record.1 hc))
  · have among := calm_anySame h hv (R.set.1 hc)
    grind
  · have among := calm_anySame h hv (List.forall_mem_singleton.2 hc)
    grind
  · split
    · next found => exact calm_anySame h hv (holds_elements? h hc found)
    · simp

end

end Value

/-! ## Nodes of expressions -/

@[simp, grind .] theorem calm_refuse (f : TreeFault Value) : R.Calm (refuse f : Outcome α) :=
  (calm_error _).2 (R.ordinary (ordinary_tree f))

@[simp, grind .] theorem calm_ofTree (x : Except (TreeFault Value) α) : R.Calm (ofTree x) := by
  cases x with
  | ok a => exact calm_ok a
  | error f => exact calm_refuse f

@[simp] theorem Value.calm_treeAt (w : World) (place : Place) (v : Value) :
    R.Calm (v.treeAt w place) := by
  unfold treeAt
  simp

@[simp] theorem Value.calm_treeIn (w : World) (group : Group) (v : Value) :
    R.Calm (v.treeIn w group) := by
  unfold treeIn
  simp

@[simp] theorem Value.calm_trees (w : World) (group : Group) (v : Value) :
    R.Calm (v.trees w group) := by
  unfold trees
  split <;> simp

namespace Node

variable (w : World)

@[simp] theorem calm_literal (v : Value) : R.Calm (literal w v) := by
  unfold literal
  split <;> simp

@[simp] theorem calm_member (target name : Value) : R.Calm (member w target name) := by
  unfold member
  split <;> simp

@[simp] theorem calm_item (target key : Value) : R.Calm (item w target key) := by
  unfold item
  simp

@[simp] theorem calm_method (target name args : Value) : R.Calm (method w target name args) := by
  unfold method
  split <;> simp

@[simp] theorem calm_func (function args : Value) : R.Calm (func w function args) := by
  unfold func
  simp

@[simp] theorem calm_ensureKey (v : Value) : R.Calm (ensureKey w v) := by
  unfold ensureKey
  grind

@[simp] theorem calm_unary (op inner : Value) : R.Calm (unary w op inner) := by
  unfold unary
  split <;> simp

@[simp] theorem calm_binaryOf (op : BinaryOp) (left right : Value) :
    R.Calm (binaryOf w op left right) := by
  unfold binaryOf
  simp

@[simp] theorem calm_binary (op left right : Value) : R.Calm (binary w op left right) := by
  unfold binary
  repeat' split
  all_goals simp

@[simp] theorem calm_cond (test yes no : Value) : R.Calm (cond w test yes no) := by
  unfold cond
  simp

@[simp] theorem calm_lambda (params body : Value) : R.Calm (lambda w params body) := by
  have body := @Value.calm_treeAt R w
  unfold lambda
  grind

@[simp] theorem calm_invoke (function args : Value) : R.Calm (invoke w function args) := by
  unfold invoke
  split <;> simp

@[simp] theorem calm_seqOf (op : SeqOp) (source args : Value) :
    R.Calm (seqOf w op source args) := by
  unfold seqOf
  simp

@[simp] theorem calm_seq (op source args : Value) : R.Calm (seq w op source args) := by
  unfold seq
  split <;> simp

section

variable {w} (h : R.Covers w) (all : ∀ v, R.Holds v)

include h all

theorem calm_members (fields : Value) (seen vs : List Value) :
    R.Calm (members w fields seen vs) := by
  induction vs generalizing seen with
  | nil => exact calm_ok _
  | cons v vs ih =>
    have among (v : Value) (vs : List Value) := Value.calm_anySame h (all v) fun u (_ : u ∈ vs) => all u
    unfold members
    refine (calm_bind _ _).2 ⟨Value.calm_elements (all v), fun parts _ => ?_⟩
    split
    · split <;> simp [*]
    · simp

theorem calm_record (type fields : Value) : R.Calm (record w type fields) := by
  have members := calm_members h all
  unfold record
  split <;> simp [*]

theorem calm_ofParts (kind : NodeKind) (parts : List Value) : R.Calm (ofParts w kind parts) := by
  have record := calm_record h all
  unfold ofParts
  split <;> simp [*]

end

end Node

namespace Value

@[simp, grind .] theorem ordinary_notIndex (w : World) (v key : Value) :
    (notIndex w v key).IsOrdinary :=
  .told rfl

theorem calm_atIndex (vs : List Value) (i : Int) : R.Calm (atIndex vs i) := by
  unfold atIndex
  grind

theorem calm_readItem {w : World} (h : R.Covers w) {v key : Value} (hv : R.Holds v)
    (hk : R.Holds key) : R.Calm (readItem w v key) := by
  unfold readItem
  split
  · simp
  · split <;> simp
  · split
    · next view =>
      have keyEntry := calm_keyEntry h (fun e he => (holds_entriesView hv view e he).1) hk
      refine (calm_bind _ _).2 ⟨keyEntry, fun o _ => ?_⟩
      split <;> simp
    · refine (calm_elim _ _ _).2 ⟨fun _ => ?_, fun i _ => calm_atIndex _ i⟩
      simp
    · simp

/-! ## Times -/

@[simp, grind .] theorem ordinary_emptyDivisor : emptyDivisor.IsOrdinary :=
  .told rfl

@[simp] theorem calm_spanOf (micros : Int) : R.Calm (spanOf micros) := by
  unfold spanOf
  split <;> simp

@[simp] theorem calm_insideCalendar (make : α → Value) (a : Option α) :
    R.Calm (insideCalendar make a) := by
  unfold insideCalendar
  split <;> simp

@[simp] theorem calm_ratioOf (x : Float) : R.Calm (ratioOf x) := by
  unfold ratioOf
  split <;> simp

@[simp] theorem calm_spanRatio (num den : Int) : R.Calm (spanRatio num den) := by
  have spanOf := @calm_spanOf R
  unfold spanRatio
  grind

section

variable {a b : Value} {x : Outcome Value}

theorem calm_addTimes? (h : addTimes? a b = some x) : R.Calm x := by
  have spanOf := @calm_spanOf R
  have dates := fun a => calm_insideCalendar (R := R) date a
  have timestamps := fun a => calm_insideCalendar (R := R) timestamp a
  unfold addTimes? at h
  grind

theorem calm_subTimes? (h : subTimes? a b = some x) : R.Calm x := by
  have spanOf := @calm_spanOf R
  have dates := fun a => calm_insideCalendar (R := R) date a
  have timestamps := fun a => calm_insideCalendar (R := R) timestamp a
  unfold subTimes? at h
  grind

theorem calm_scaleSpan? {s : Calendar.Span} (h : scaleSpan? s b = some x) :
    R.Calm x := by
  have ratioOf := @calm_ratioOf R
  have spanRatio := @calm_spanRatio R
  unfold scaleSpan? at h
  split at h
  · grind
  · obtain ⟨n, -, rfl⟩ := Option.map_eq_some_iff.1 h
    exact calm_spanOf _

theorem calm_mulTimes? (h : mulTimes? a b = some x) : R.Calm x := by
  have scaled := @calm_scaleSpan? R
  unfold mulTimes? at h
  grind

theorem calm_divTimes? (h : divTimes? a b = some x) : R.Calm x := by
  have ratioOf := @calm_ratioOf R
  have spanRatio := @calm_spanRatio R
  unfold divTimes? at h
  split at h
  · grind
  · grind
  · obtain ⟨n, -, rfl⟩ := Option.map_eq_some_iff.1 h
    exact calm_spanRatio _ _
  · cases h

theorem calm_modTimes? (h : modTimes? a b = some x) : R.Calm x := by
  have spanOf := @calm_spanOf R
  unfold modTimes? at h
  grind

end

end Value

/-! ## Filling in -/

namespace Filling

@[simp, grind .] theorem ordinary_incomplete : incomplete.IsOrdinary :=
  .told rfl

@[simp, grind .] theorem ordinary_leftOver (medium : Medium) : (leftOver medium).IsOrdinary :=
  .told rfl

@[simp] theorem calm_next (s : Supplies) : R.Calm (next s) := by
  unfold next
  grind

/-- Whether the value that names are looked up in is in a realm. -/
def Supplies.Fit (R : Realm) (s : Supplies) : Prop := ∀ m, s.mapping = some m → R.Holds m

theorem brings_next (s : Supplies) : Brings (fun p => p.2.mapping = s.mapping) (next s) := by
  unfold next
  grind

theorem brings_takeName (w : World) (medium : Medium) (s : Supplies) (cs : List Char) :
    Brings (fun p => p.1.mapping = s.mapping) (takeName w medium s cs) := by
  unfold takeName
  grind

theorem calm_takeName {w : World} (h : R.Covers w) (medium : Medium) {s : Supplies}
    (fit : s.Fit R) (cs : List Char) : R.Calm (takeName w medium s cs) := by
  unfold takeName
  split
  · split
    · simp
    · next m found =>
      have readItem (name : List Char) : R.Calm (Value.readItem w m (medium.value name)) :=
        Value.calm_readItem h (fit m found) (Value.holds_medium name)
      split <;> simp [*]
  · exact calm_ok _

theorem brings_nextCount (limit : Nat) (s : Supplies) :
    Brings (fun p => p.2.mapping = s.mapping) (nextCount limit s) := by
  have next := brings_next s
  unfold nextCount
  refine Brings.bind next fun p hp => ?_
  grind

@[simp] theorem calm_nextCount (limit : Nat) (s : Supplies) : R.Calm (nextCount limit s) := by
  have next := @calm_next R
  unfold nextCount
  grind

@[simp] theorem calm_writtenCount (limit : Nat) (ds : List Char) :
    R.Calm (writtenCount limit ds) := by
  unfold writtenCount
  simp

@[simp] theorem calm_takeWidth (s : Supplies) (cs : List Char) : R.Calm (takeWidth s cs) := by
  unfold takeWidth
  split <;> simp

@[simp] theorem calm_takePrecision (s : Supplies) (cs : List Char) :
    R.Calm (takePrecision s cs) := by
  unfold takePrecision
  split <;> simp

theorem brings_takeWidth (s : Supplies) (cs : List Char) :
    Brings (fun p => p.2.1.mapping = s.mapping) (takeWidth s cs) := by
  have count := brings_nextCount (Number.twoTo 63) s
  unfold takeWidth
  dsimp only
  split
  · exact count.bind fun p hp => (brings_ok _).2 hp
  · grind

theorem brings_takePrecision (s : Supplies) (cs : List Char) :
    Brings (fun p => p.2.1.mapping = s.mapping) (takePrecision s cs) := by
  have count := brings_nextCount (Number.twoTo 31) s
  unfold takePrecision
  dsimp only
  split
  · exact count.bind fun p hp => (brings_ok _).2 hp
  · grind
  · grind

theorem brings_takeDirective (w : World) (medium : Medium) (s : Supplies) (cs : List Char) :
    Brings (fun p => p.2.1.mapping = s.mapping) (takeDirective w medium s cs) := by
  unfold takeDirective
  refine (brings_takeName w medium s cs).bind fun a ha => ?_
  refine (brings_takeWidth a.1 _).bind fun b hb => ?_
  refine (brings_takePrecision b.2.1 _).bind fun c hc => ?_
  grind

theorem calm_takeDirective {w : World} (h : R.Covers w) (medium : Medium) {s : Supplies}
    (fit : s.Fit R) (cs : List Char) : R.Calm (takeDirective w medium s cs) := by
  unfold takeDirective
  simp only [calm_bind]
  refine ⟨calm_takeName h medium fit cs, fun a _ => ⟨calm_takeWidth _ _, fun b _ => ?_⟩⟩
  refine ⟨calm_takePrecision _ _, fun c _ => ?_⟩
  grind

@[simp] theorem calm_integerOf (w : World) (d : Directive) (v : Value) :
    R.Calm (integerOf w d v) := by
  have wholePart := @Value.calm_wholePart? R
  unfold integerOf
  grind

@[simp] theorem calm_floatOf (w : World) (medium : Medium) (v : Value) :
    R.Calm (floatOf w medium v) := by
  have real := @Value.calm_realPart? R v
  unfold floatOf
  grind

@[simp] theorem calm_charOf (medium : Medium) (v : Value) : R.Calm (charOf medium v) := by
  unfold charOf
  grind

@[simp] theorem calm_plainOf (w : World) (medium : Medium) (v : Value) :
    R.Calm (plainOf w medium v) := by
  have tellPlain := @Value.calm_tellPlain R w
  unfold plainOf
  grind

@[simp] theorem calm_written (w : World) (medium : Medium) (d : Directive) (v : Value) :
    R.Calm (written w medium d v) := by
  unfold written asciiText
  repeat' split
  all_goals simp

theorem calm_fillChars {w : World} (h : R.Covers w) (medium : Medium) (fuel : Nat) {s : Supplies}
    (fit : s.Fit R) (done cs : List Char) : R.Calm (fillChars w medium fuel s done cs) := by
  fun_induction fillChars with
  | case5 fuel s done rest _ ih =>
    refine (calm_takeDirective h medium fit rest).bind (brings_takeDirective w medium s rest)
      fun d hd => ?_
    refine (calm_next _).bind (brings_next _) fun v hv => ?_
    refine (calm_bind _ _).2 ⟨calm_written w medium _ _, fun body _ => ?_⟩
    have same : v.2.mapping = s.mapping := hv.trans hd
    have later := ih d.1 d.2.2 v.2 body (fun m is => fit m (same ▸ is))
    grind
  | _ => grind

end Filling

namespace Value

theorem calm_fillWith {w : World} (h : R.Covers w) (medium : Medium) (cs : List Char) {v : Value}
    (hv : R.Holds v) : R.Calm (fillWith w medium cs v) := by
  unfold fillWith
  refine Filling.calm_fillChars h medium _ (fun m is => ?_) _ _
  split at is
  · cases is
  · split at is <;> cases is
    exact hv

/-! ## Arithmetic -/

@[simp, grind .] theorem ordinary_noOperation (w : World) (symbol : String) (a b : Value) :
    (noOperation w symbol a b).IsOrdinary :=
  .told rfl

@[simp, grind .] theorem ordinary_noJoin (w : World) (kind : String) (b : Value) :
    (noJoin w kind b).IsOrdinary :=
  .told rfl

@[simp, grind .] theorem ordinary_noTimes (w : World) (v : Value) : (noTimes w v).IsOrdinary :=
  .told rfl

@[simp] theorem calm_join (w : World) (a b : Value) : R.Calm (join w a b) := by
  unfold join
  grind

@[simp] theorem calm_add (w : World) (a b : Value) : R.Calm (add w a b) := by
  have numbers := @calm_numbers? R
  have ofDecimal := @calm_ofDecimal R
  have join := @calm_join R w
  have times := @calm_addTimes? R a b
  unfold add
  grind

theorem calm_sub {w : World} (h : R.Covers w) {a b : Value} (ha : R.Holds a) (hb : R.Holds b) :
    R.Calm (sub w a b) := by
  have times := @calm_subTimes? R a b
  unfold sub
  refine (calm_bind _ _).2 ⟨calm_numbers? a b, fun numbers _ => ?_⟩
  split
  · exact calm_ok _
  · exact calm_ok _
  · exact calm_ofDecimal _
  · exact calm_ok _
  · split
    · have among (x : Value) (hx : x ∈ _) := calm_anySame h (R.set.1 ha x hx) (R.set.1 hb)
      simpa using calm_filterM _ _ fun x hx => by simpa using among x hx
    · grind

@[simp] theorem calm_timesWithin (isText : Bool) (make : List α → Value) (xs : List α)
    (n : Int) : R.Calm (timesWithin isText make xs n) := by
  unfold timesWithin
  simp

theorem calm_times {w : World} {v : Value} {n : Int} {x : Outcome Value}
    (h : times w v n = some x) : R.Calm x := by
  unfold times at h
  split at h
  · cases h
    exact calm_timesWithin _ _ _ _
  · cases h
    exact calm_timesWithin _ _ _ _
  · cases h
    exact calm_timesWithin _ _ _ _
  · obtain ⟨xs, -, rfl⟩ := Option.map_eq_some_iff.1 h
    exact calm_timesWithin _ _ _ _

@[simp] theorem calm_mul (w : World) (a b : Value) : R.Calm (mul w a b) := by
  have repeated : ∀ (o : Option Int) v x, o.bind (times w v) = some x → R.Calm x := by
    intro o v x h
    obtain ⟨n, -, made⟩ := Option.bind_eq_some_iff.1 h
    exact calm_times made
  unfold mul
  refine (calm_bind _ _).2 ⟨calm_numbers? a b, fun numbers _ => ?_⟩
  split
  · exact calm_ok _
  · exact calm_ok _
  · exact calm_ofDecimal _
  · exact calm_ok _
  · split
    · exact calm_mulTimes? ‹_›
    · exact repeated _ _ _ ‹_›
    · exact repeated _ _ _ ‹_›
    · grind

@[simp] theorem calm_div (w : World) (a b : Value) : R.Calm (div w a b) := by
  have numbers := @calm_numbers? R
  have ofDecimal := @calm_ofDecimal R
  have times := @calm_divTimes? R a b
  unfold div
  grind

theorem calm_mod {w : World} (h : R.Covers w) (a : Value) {b : Value} (hb : R.Holds b) :
    R.Calm (mod w a b) := by
  have filled (medium : Medium) (cs : List Char) := calm_fillWith h medium cs hb
  have numbers := @calm_numbers? R
  have ofDecimal := @calm_ofDecimal R
  have times := @calm_modTimes? R a b
  unfold mod fill fillBytes
  grind

@[simp] theorem calm_neg (w : World) (v : Value) : R.Calm (neg w v) := by
  have ofDecimal := @calm_ofDecimal R
  have spanOf := @calm_spanOf R
  unfold neg
  grind

@[simp] theorem calm_complement (w : World) (v : Value) : R.Calm (complement w v) := by
  unfold complement
  grind

section

variable {w : World} (h : R.Covers w) {a b : Value} (ha : R.Holds a) (hb : R.Holds b)

include h

theorem calm_bitAnd (ha : R.Holds a) (hb : R.Holds b) : R.Calm (bitAnd w a b) := by
  unfold bitAnd
  split
  · exact calm_ok _
  · have among (x : Value) (hx : x ∈ _) := calm_anySame h (R.set.1 ha x hx) (R.set.1 hb)
    simpa using calm_filterM _ _ among
  · grind

theorem calm_merge {es fs : List (Value × Value)} (hes : ∀ e ∈ es, R.Holds e.1 ∧ R.Holds e.2)
    (hfs : ∀ e ∈ fs, R.Holds e.1 ∧ R.Holds e.2) : R.Calm (merge w es fs) :=
  calm_foldlM hes (fun _ hgs f hf => brings_putEntry hgs (hfs f hf).1 (hfs f hf).2)
    fun _ hgs f hf => calm_putEntry h (fun g hg => (hgs g hg).1) (hfs f hf).1 f.2

theorem calm_bitOr (ha : R.Holds a) (hb : R.Holds b) : R.Calm (bitOr w a b) := by
  unfold bitOr
  split
  · exact calm_ok _
  · exact calm_makeSet h (List.forall_mem_append.2 ⟨R.set.1 ha, R.set.1 hb⟩)
  · simpa using calm_merge h (R.dict.1 ha) (R.dict.1 hb)
  · split
    · next left right =>
      simpa using calm_merge h (holds_entriesView ha left) (holds_entriesView hb right)
    · unfold unite
      grind

end

/-! ## Operators -/

section

variable {w : World} (h : R.Covers w) {a b : Value}

include h

theorem calm_compute (op : ScriptOp) (ha : R.Holds a) (hb : R.Holds b) :
    R.Calm (compute w op a b) := by
  have equal := calm_equalTo h depthLimit a b ha hb
  have related (r : Relation) := calm_relatedTo h r depthLimit a b ha hb
  unfold compute
  split
  case h_7 => exact calm_bitAnd h ha hb
  case h_8 => exact calm_bitOr h ha hb
  case h_9 => exact calm_add w a b
  case h_10 => exact calm_sub h ha hb
  case h_11 => exact calm_mul w a b
  case h_12 => exact calm_div w a b
  case h_13 => exact calm_mod h a hb
  all_goals
    refine (calm_bind _ _).2 ⟨?_, fun _ _ => calm_ok _⟩
    first | exact equal | exact related _

theorem calm_answersFirst {op : ScriptOp} {x : Outcome Value} (hb : R.Holds b)
    (is : answersFirst w op a b = some x) : R.Calm x := by
  have filled (medium : Medium) (cs : List Char) := calm_fillWith h medium cs hb
  unfold answersFirst fill fillBytes at is
  grind

omit h in
@[simp] theorem calm_recordBinary (w : World) (op : BinaryOp) (left right : Value) :
    R.Calm (recordBinary w op left right) := by
  unfold recordBinary
  simp

theorem calm_operate (op : ScriptOp) (ha : R.Holds a) (hb : R.Holds b) :
    R.Calm (operate w op a b) := by
  unfold operate
  split
  · simp
  · split
    · next answers => exact calm_answersFirst h hb answers
    · split <;> simp
  · exact calm_compute h op ha hb

omit h in
@[simp] theorem calm_negate (w : World) (v : Value) : R.Calm (negate w v) := by
  unfold negate recordUnary
  split <;> simp

omit h in
@[simp] theorem calm_invert (w : World) (v : Value) : R.Calm (invert w v) := by
  unfold invert recordUnary
  split <;> simp

end

end Value

/-! ## Operators of expressions -/

section

variable {w : World} (h : R.Covers w) {a b v : Value}

include h

theorem BinaryOp.calm_apply (op : BinaryOp) (ha : R.Holds a) (hb : R.Holds b) :
    R.Calm (op.apply w a b) := by
  have operate (op : ScriptOp) := Value.calm_operate h op ha hb
  have within := Value.calm_contains h ha hb
  have among := Value.calm_contains h hb ha
  have left := Value.calm_truth (w := w) ha
  have right := Value.calm_truth (w := w) hb
  unfold apply applyPresent
  repeat' split
  all_goals simp [*]

theorem BinaryOp.brings_apply (op : BinaryOp) (ha : R.Holds a) (hb : R.Holds b) :
    Brings R.Holds (op.apply w a b) := by
  have operate (op : ScriptOp) := Value.brings_operate h op ha hb
  unfold apply applyPresent applyMissing
  repeat' split
  all_goals simp [*]

omit h in
theorem UnaryOp.calm_apply (op : UnaryOp) (hv : R.Holds v) : R.Calm (op.apply w v) := by
  have truth := Value.calm_truth (w := w) hv
  unfold apply
  split <;> simp [*]

theorem UnaryOp.brings_apply (op : UnaryOp) (hv : R.Holds v) : Brings R.Holds (op.apply w v) := by
  have negated := Value.brings_negate h hv
  unfold apply
  split
  · exact (brings_bind _ _).2 fun b _ => (brings_ok _).2 (R.holds_bool _)
  · split
    · exact (brings_ok _).2 R.holds_none
    · exact negated

end

end EntityGraph
