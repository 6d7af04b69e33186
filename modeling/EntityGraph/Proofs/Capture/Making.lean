import EntityGraph.Proofs.Capture.Covered
import EntityGraph.Proofs.Realm.Making

/-!
# Making and assigning while a function is captured

Computations that make objects and assign to attributes lead from one stage of capturing to a later
one. Each step uses up a number, makes an object of values at hand, or assigns a literal; whatever was
at hand before is still at hand after it.
-/

namespace EntityGraph

variable {α β : Type}

/-- A stage of capturing after what a trail leaves behind. -/
def Stage.at (c : Stage) (t : Trail) : Stage := { c with top := t.supply + 1, memory := t.memory }

/-- Whether a computation, started after a trail, leads to a later stage of capturing at which its
result is of a certain sort. -/
def Stays (c : Stage) (w : World) (P : Stage → α → Prop) (t : Trail) (x : Making α) : Prop :=
  ∀ a u, runOn x t = (.ok a, u) →
    (c.at u).Covers (w.after u) ∧ (c.at t).Extends (c.at u) ∧ P (c.at u) a

variable {c : Stage} {w : World} {t : Trail} {P : Stage → α → Prop} {Q : Stage → β → Prop}

/-! ## How computations are put together -/

theorem Stays.bind {x : Making β} {f : β → Making α} (hx : Stays c w Q t x)
    (hf : ∀ b u, (c.at u).Covers (w.after u) → (c.at t).Extends (c.at u) → Q (c.at u) b →
      Stays c w P u (f b)) : Stays c w P t (x >>= f) := by
  intro a v run
  obtain ⟨b, u, first, rest⟩ := bind_eq_ok run
  obtain ⟨covers, more, hb⟩ := hx b u first
  obtain ⟨covers', more', ha⟩ := hf b u covers more hb a v rest
  exact ⟨covers', more.trans more', ha⟩

theorem stays_throw (f : Fault) : Stays c w P t (throw f) := by
  intro a u run
  cases run

theorem stays_now {f : World → Making α} (h : Stays c w P t (f (w.after t))) :
    Stays c w P t (Making.now w >>= f) := h

theorem stays_outcome (covers : (c.at t).Covers (w.after t)) {x : Outcome α}
    (h : Brings (P (c.at t)) x) : Stays c w P t (liftM x) := by
  intro a u run
  obtain ⟨is, rfl⟩ := outcome_of_run run
  exact ⟨covers, Stage.extends_refl _, h a is⟩

theorem stays_pure (covers : (c.at t).Covers (w.after t)) {a : α} (h : P (c.at t) a) :
    Stays c w P t (pure a) :=
  stays_outcome covers ((brings_ok a).2 h)

/-- What is found without leaving anything behind. -/
theorem stays_find {x : Outcome β} {f : β → Making α} (h : ∀ b, x = .ok b → Stays c w P t (f b)) :
    Stays c w P t (liftM x >>= f) := by
  intro a v run
  obtain ⟨b, u, first, rest⟩ := bind_eq_ok run
  obtain ⟨is, rfl⟩ := outcome_of_run first
  exact h b is a v rest

/-! ## Numbers -/

theorem covers_next (covers : (c.at t).Covers (w.after t)) :
    (c.at t.next).Covers (w.after t.next) where
  memory := covers.memory
  classes := covers.classes
  objects := covers.objects
  early := covers.early
  types := covers.types
  trees := covers.trees
  fresh r o found later := by
    refine covers.fresh r o found ?_
    cases r with
    | made n => exact Nat.le_of_succ_le later
    | _ => cases later
  low := Nat.le_succ_of_le covers.low
  made p hp := Nat.lt_succ_of_lt (covers.made p hp)

theorem extends_next (c : Stage) (t : Trail) : (c.at t).Extends (c.at t.next) where
  base := rfl
  asked := rfl
  top := Nat.le_succ _
  known := fun _ h => h
  late := fun _ h h' => absurd h h'
  held := fun _ _ _ o found a ha => .inr ⟨o, found, a, ha, rfl⟩

/-- A new number is free of everything that was at hand. -/
theorem stays_newNumber (covers : (c.at t).Covers (w.after t)) :
    Stays c w (fun d n => n = t.supply + 1 ∧ d = c.at t.next) t Making.newNumber := by
  intro n u run
  cases run
  exact ⟨covers_next covers, extends_next c t, rfl, rfl⟩

/-- What bears a new number has no attributes yet. -/
theorem new_made (covers : (c.at t).Covers (w.after t)) :
    (c.at t.next).Has (.made (t.supply + 1)) ∧ (c.at t.next).Holds (.made (t.supply + 1)) := by
  refine ⟨⟨fun _ later => absurd later (Nat.not_succ_le_self _), nofun⟩, fun _ o found => ?_⟩
  exact absurd (Nat.le_refl _) (covers.fresh _ o found)

namespace Value

theorem within_withMark (covers : (c.at t).Covers (w.after t)) {v : Value}
    (h : v.Within (c.at t)) : (v.withMark (t.supply + 1)).Within (c.at t.next) := by
  have later := h.mono (extends_next c t)
  cases v with
  | float | decimal | complex => exact .atom rfl
  | foreign => exact within_foreign.2 (within_foreign.1 h)
  | orderedDict es m =>
    obtain ⟨has, holds⟩ := new_made covers
    exact within_orderedDict.2 ⟨(within_orderedDict.1 later).1, has, holds⟩
  | expr e p => exact absurd h not_within_expr
  | proxy u m =>
    have operand := within_proxy.1 later
    refine within_proxy.2 ?_
    split
    · rcases operand with operand | ⟨e, p, rfl, tree, -⟩
      · cases u with
        | expr e p => exact absurd operand not_within_expr
        | _ => exact .inl operand
      · exact .inr ⟨e, _, rfl, tree, .inr covers.low⟩
    · exact operand
  | _ => exact later

theorem stays_owned (covers : (c.at t).Covers (w.after t)) {v : Value} (h : v.Within (c.at t)) :
    Stays c w (fun d u => u.Within d) t v.owned := by
  unfold owned
  split
  · refine (stays_newNumber covers).bind fun n u covers' _ hn => ?_
    obtain ⟨rfl, same⟩ := hn
    exact stays_pure covers' (same ▸ within_withMark covers h)
  · exact stays_pure covers h

theorem stays_makeProxy (covers : (c.at t).Covers (w.after t)) {u : Value}
    (h : u.IsOperand (c.at t)) : Stays c w (fun d u => u.Within d) t (makeProxy u) :=
  stays_owned covers (within_proxy.2 h)

mutual

theorem stays_settled (v : Value) (t : Trail) (covers : (c.at t).Covers (w.after t))
    (h : v.Within (c.at t)) : Stays c w (fun d u => u.Within d) t v.settled := by
  cases v with
  | list vs =>
    refine (stays_settledList vs t covers (within_list.1 h)).bind fun us u covers' _ hus => ?_
    exact stays_pure covers' (within_list.2 hus)
  | tuple vs =>
    refine (stays_settledList vs t covers (within_tuple.1 h)).bind fun us u covers' _ hus => ?_
    exact stays_pure covers' (within_tuple.2 hus)
  | dict es =>
    refine (stays_settledEntries es t covers (within_dict.1 h)).bind fun fs u covers' _ hfs => ?_
    exact stays_pure covers' (within_dict.2 hfs)
  | orderedDict es m =>
    have parts := within_orderedDict.1 h
    refine (stays_settledEntries es t covers parts.1).bind fun fs u covers' more hfs => ?_
    have mark := (within_orderedDict.1 (h.mono more)).2
    exact stays_owned covers' (within_orderedDict.2 ⟨hfs, mark⟩)
  | _ => exact stays_owned covers h

theorem stays_settledList (vs : List Value) (t : Trail) (covers : (c.at t).Covers (w.after t))
    (h : ∀ v ∈ vs, v.Within (c.at t)) :
    Stays c w (fun d us => ∀ u ∈ us, u.Within d) t (settledList vs) := by
  cases vs with
  | nil => exact stays_pure covers nofun
  | cons v vs =>
    rw [List.forall_mem_cons] at h
    refine (stays_settled v t covers h.1).bind fun v' u covers' more hv => ?_
    refine (stays_settledList vs u covers' fun v hv => (h.2 v hv).mono more).bind
      fun vs' u' covers'' more' hvs => ?_
    exact stays_pure covers'' (List.forall_mem_cons.2 ⟨hv.mono more', hvs⟩)

theorem stays_settledEntries (es : List (Value × Value)) (t : Trail)
    (covers : (c.at t).Covers (w.after t))
    (h : ∀ e ∈ es, e.1.Within (c.at t) ∧ e.2.Within (c.at t)) :
    Stays c w (fun d fs => ∀ f ∈ fs, f.1.Within d ∧ f.2.Within d) t (settledEntries es) := by
  cases es with
  | nil => exact stays_pure covers nofun
  | cons e es =>
    obtain ⟨k, v⟩ := e
    rw [List.forall_mem_cons] at h
    refine (stays_settled k t covers h.1.1).bind fun k' u covers₁ more₁ hk => ?_
    refine (stays_settled v u covers₁ (h.1.2.mono more₁)).bind fun v' u' covers₂ more₂ hv => ?_
    refine (stays_settledEntries es u' covers₂ fun e he =>
      ⟨(h.2 e he).1.mono (more₁.trans more₂), (h.2 e he).2.mono (more₁.trans more₂)⟩).bind
      fun es' u'' covers₃ more₃ hes => ?_
    refine stays_pure covers₃ (List.forall_mem_cons.2 ⟨⟨?_, hv.mono more₃⟩, hes⟩)
    exact hk.mono (more₂.trans more₃)

end

theorem stays_own (covers : (c.at t).Covers (w.after t)) {x : Outcome Value}
    (h : Brings (·.Within (c.at t)) x) : Stays c w (fun d u => u.Within d) t (own x) := by
  refine (stays_outcome (P := fun d v => v.Within d) covers h).bind fun v u covers' _ hv => ?_
  split
  · exact stays_settled v u covers' hv
  · exact stays_pure covers' hv

end Value

/-! ## Objects -/

section

variable {r : Ref} {o : ObjectDecl} (covers : (c.at t).Covers (w.after t)) (has : (c.at t).Has r)
  (plain : o.type.IsPlain)

include covers has plain

/-- Changing what is there leads to a stage that is covered, as long as what was there before capturing
began takes literals only. -/
theorem covers_put (early : ¬ r.IsFrom c.base → ∀ a ∈ o.attributes, a.2.Within c.bare) :
    (c.at (t.put r o)).Covers (w.after (t.put r o)) where
  memory := rfl
  classes := covers.classes
  objects := covers.objects
  early s o' found since a ha := by
    rw [show (c.at (t.put r o)).memory = t.memory.insert r o from rfl, Memory.lookup_insert] at found
    split at found
    · next same =>
      subst same
      cases found
      exact early since a ha
    · exact covers.early s o' found since a ha
  types s o' found := by
    rw [show (c.at (t.put r o)).memory = t.memory.insert r o from rfl, Memory.lookup_insert] at found
    split at found
    · cases found
      exact plain
    · exact covers.types s o' found
  trees q o' mem := by
    rcases List.mem_cons.1 mem with same | mem
    · cases same
      exact absurd rfl (has.other q)
    · exact covers.trees q o' (List.mem_filter.1 mem).1
  fresh s o' found later := by
    rw [show (c.at (t.put r o)).memory = t.memory.insert r o from rfl, Memory.lookup_insert] at found
    split at found
    · next same =>
      subst same
      refine has.made ?_ later
      cases s with
      | made n => exact Nat.le_trans covers.low later
      | _ => cases later
    · exact covers.fresh s o' found later
  low := covers.low
  made := covers.made

/-- Literals can be assigned to what is there. -/
theorem stays_put (filled : o.IsFilledFrom c.bare.realm ((w.after t).object r)) :
    Stays c w (fun _ _ => True) t (Making.put r o) := by
  intro _ u run
  cases run
  refine ⟨covers_put covers has plain fun before a ha => ?_, ⟨rfl, rfl, Nat.le_refl _,
    fun _ h => h, fun _ h h' => absurd h h', fun s since _ o' found a ha => ?_⟩, trivial⟩
  · rcases filled a ha with literal | ⟨a', ha', same⟩
    · exact literal
    · exact same ▸ covers.object_early before a' ha'
  · rw [show (c.at { t with memory := t.memory.insert r o }).memory = t.memory.insert r o from rfl,
      Memory.lookup_insert] at found
    split at found
    · next same =>
      subst same
      cases found
      refine (filled a ha).imp_right fun ⟨a', ha', same⟩ => ?_
      unfold World.object at ha'
      split at ha'
      · next found => exact ⟨_, found, a', ha', same⟩
      · cases since
      · cases ha'
    · exact .inr ⟨o', found, a, ha, rfl⟩

omit has plain in
theorem stays_newObject {type : HostType} {attributes : List (String × Value)}
    (plain : type.IsPlain) (held : ∀ a ∈ attributes, a.2.Within (c.at t)) :
    Stays c w (fun d v => v.Within d) t (Making.newObject type attributes) := by
  intro v u run
  cases run
  have has := (new_made covers).1
  have more : (c.at t).Extends (c.at (t.next.put (.made (t.supply + 1)) ⟨type, attributes⟩)) := by
    refine ⟨rfl, rfl, Nat.le_succ _, fun _ h => h, fun _ h h' => absurd h h',
      fun s since has o found a ha => ?_⟩
    rw [show (c.at (t.next.put _ _)).memory = t.memory.insert _ _ from rfl,
      Memory.lookup_insert] at found
    split at found
    · next same =>
      subst same
      exact absurd (Nat.le_refl _) (has.made since)
    · exact .inr ⟨o, found, a, ha, rfl⟩
  refine ⟨covers_put (covers_next covers) has plain fun before => ?_, more, ?_⟩
  · exact absurd covers.low before
  · refine Value.within_object.2 ⟨⟨has.made, has.other⟩, fun _ o found a ha => ?_⟩
    rw [show (c.at _).memory = t.memory.insert _ _ from rfl, Memory.lookup_insert, if_pos rfl]
      at found
    cases found
    exact (held a ha).mono more

end

/-! ## Assignments -/

namespace Value

variable {name : String} {v : Value} (literal : v.Within c.bare)

include literal

/-- Assigning a literal to an attribute of a value at hand. -/
theorem stays_assign (covers : (c.at t).Covers (w.after t)) {target : Value}
    (h : target.Within (c.at t)) : Stays c w (fun _ _ => True) t (assign w target name v) := by
  refine stays_now ?_
  split
  · exact stays_throw _
  · next r =>
    refine stays_find fun o is => ?_
    obtain ⟨filled, plain⟩ := brings_assignedObject (R := c.bare.realm) literal
      (within_type.2 (covers.objectType r)) o is
    exact stays_put covers (within_object.1 h).1 (within_type.1 plain) filled
  · refine stays_find fun _ _ => stays_find fun o is => ?_
    cases ref : target.ref? (w.after t) with
    | none => exact stays_pure covers trivial
    | some r =>
      rw [ref] at is
      obtain ⟨filled, same⟩ := brings_putAny (R := c.bare.realm) literal _ o is
      exact stays_put covers (there_of_ref h ref).1 (same ▸ covers.objectType r) filled

end Value

/-! ## Instances of classes -/

theorem stays_mapM {f : β → Making α} {bs : List β} (covers : (c.at t).Covers (w.after t))
    (later : ∀ d e a, d.Extends e → P d a → P e a)
    (each : ∀ b ∈ bs, ∀ u, (c.at u).Covers (w.after u) → (c.at t).Extends (c.at u) →
      Stays c w P u (f b)) :
    Stays c w (fun d as => ∀ a ∈ as, P d a) t (bs.mapM f) := by
  induction bs generalizing t with
  | nil => exact stays_pure covers nofun
  | cons b bs ih =>
    rw [List.mapM_cons]
    refine (each b (by simp) t covers (Stage.extends_refl _)).bind fun a u covers₁ more₁ ha => ?_
    refine (ih covers₁ fun b' hb' v covers₂ more₂ =>
      each b' (by simp [hb']) v covers₂ (more₁.trans more₂)).bind fun as v covers₂ more₂ has => ?_
    exact stays_pure covers₂ (List.forall_mem_cons.2 ⟨later _ _ a more₂ ha, has⟩)

namespace Value

variable {args : List Value}

theorem stays_filledFields (covers : (c.at t).Covers (w.after t)) {className : String}
    {fields : List MemberDecl} (sub : fields ⊆ w.classes.fields className)
    {given : List (String × Value)} (held : ∀ g ∈ given, g.2.Within (c.at t)) :
    Stays c w (fun d fs => ∀ f ∈ fs, f.2.Within d) t (filledFields fields given) := by
  refine stays_mapM (P := fun d (f : String × Value) => f.2.Within d) covers
    (fun d e f more hf => hf.mono more) fun m hm u covers' more => ?_
  split
  · next found => exact stays_pure covers' ((holds_lookup (R := (c.at t).realm) held found).mono more)
  · next is =>
    have declared := covers'.default (sub hm) is
    refine (stays_own covers' ((brings_ok _).2 ?_)).bind fun v u' covers'' _ hv =>
      stays_pure covers'' hv
    split
    · exact holds_renewed (R := (c.at u).realm) _ declared
    · exact declared
  · exact stays_throw _

theorem stays_makeInstance (covers : (c.at t).Covers (w.after t)) (className : String)
    {given : List (String × Value)} (held : ∀ g ∈ given, g.2.Within (c.at t)) :
    Stays c w (fun d v => v.Within d) t (makeInstance (w.after t) className given) := by
  have record : Stays c w (fun d v => v.Within d) t (do
      Making.newObject (.declared className)
        (← filledFields ((w.after t).classes.fields className) given)) := by
    refine (stays_filledFields (w := w) covers (List.Subset.refl _) held).bind
      fun fs u covers' _ hfs => stays_newObject covers' trivial hfs
  unfold makeInstance
  dsimp only
  split
  · split
    · exact stays_throw _
    · exact record
  · split
    · exact stays_throw _
    · exact record
  · split
    · exact stays_throw _
    · exact stays_newObject covers trivial nofun

theorem stays_makeInOrder (covers : (c.at t).Covers (w.after t)) (className : String)
    (hargs : ∀ a ∈ args, a.Within (c.at t)) :
    Stays c w (fun d v => v.Within d) t (makeInOrder (w.after t) className args) := by
  unfold makeInOrder
  dsimp only
  split
  · exact stays_makeInstance covers className fun g hg => hargs g.2 (List.of_mem_zip hg).2
  · exact stays_throw _

theorem stays_makeCelsius (covers : (c.at t).Covers (w.after t)) {v : Value}
    (h : v.Within (c.at t)) : Stays c w (fun d v => v.Within d) t (makeCelsius v) :=
  stays_newObject covers trivial fun _ ha => List.mem_singleton.1 ha ▸ h

theorem stays_construct (covers : (c.at t).Covers (w.after t)) (type : HostType)
    (hargs : ∀ a ∈ args, a.Within (c.at t)) :
    Stays c w (fun d v => v.Within d) t (construct (w.after t) type args) := by
  unfold construct
  split
  · exact stays_makeCelsius covers (hargs _ (by simp))
  · exact stays_own covers (brings_constructBuiltin covers.realm hargs _)
  · exact stays_outcome covers (brings_makeRecord covers.realm (within_list.2 (by simp)) _)
  · exact stays_outcome covers (brings_makeRecord covers.realm (hargs _ (by simp)) _)
  · exact stays_throw _
  · exact stays_makeInOrder covers _ hargs
  · exact stays_throw _

/-- Instances of classes other than those of expressions. -/
theorem stays_instantiate (covers : (c.at t).Covers (w.after t)) {type : HostType}
    (plain : type.IsPlain) (hargs : ∀ a ∈ args, a.Within (c.at t)) :
    Stays c w (fun d v => v.Within d) t (instantiate (w.after t) type args) := by
  unfold instantiate
  split
  · exact stays_makeProxy covers (.inl (hargs _ (by simp)))
  · exact stays_throw _
  · exact plain.elim
  · exact stays_construct covers _ hargs

end Value

/-! ## Functions that come with the library -/

section

variable {v : Value} {args : List Value}

open Value

theorem Primitive.stays_applyOne (covers : (c.at t).Covers (w.after t)) (p : Primitive)
    (h : v.Within (c.at t)) :
    Stays c w (fun d u => u.Within d) t (p.applyOne (w.after t) v) := by
  cases p with
  | len | length => exact stays_find fun n _ => stays_pure covers (within_int _ n)
  | abs => exact stays_own covers (brings_absolute (R := (c.at t).realm) v)
  | sum =>
    refine stays_find fun vs is => stays_own covers ?_
    exact brings_total covers.realm (brings_elements covers.realm h vs is) (within_int _ 0)
  | max =>
    exact stays_find fun vs is => stays_own covers (brings_greatest (brings_elements covers.realm h vs is))
  | parseDate => exact stays_own covers (brings_readDate (R := (c.at t).realm) v)
  | parseTimestamp => exact stays_own covers (brings_readTimestamp (R := (c.at t).realm) v)
  | parseUuid => exact stays_own covers (brings_readUuid (R := (c.at t).realm) v)
  | narrowInt => exact stays_own covers (brings_narrowed covers.realm h)
  | narrowFloat => exact stays_own covers (brings_rounded (R := (c.at t).realm) v)
  | reverse | reverseStr | reverseQuoted => exact stays_own covers (brings_reversed covers.realm h)
  | negate => exact stays_find fun b _ => stays_pure covers (within_bool _ (!b))
  | double => exact stays_own covers (brings_operate covers.realm .mul h (within_int _ 2))
  | toDateOrdinal => exact stays_own covers (brings_dateOfOrdinal (R := (c.at t).realm) v)
  | toCelsius => exact stays_makeCelsius covers h
  | listify => exact stays_pure covers (within_list.2 fun u hu => List.mem_singleton.1 hu ▸ h)
  | fail => exact stays_throw _

theorem Primitive.stays_apply (covers : (c.at t).Covers (w.after t)) (p : Primitive)
    (h : ∀ a ∈ args, a.Within (c.at t)) :
    Stays c w (fun d u => u.Within d) t (p.apply (w.after t) args) := by
  unfold apply
  split
  · exact stays_applyOne covers p (h _ (by simp))
  · refine stays_find fun vs is => stays_own covers ?_
    exact brings_total covers.realm (brings_elements covers.realm (h _ (by simp)) vs is) (h _ (by simp))
  · exact stays_own covers (brings_greatest (R := (c.at t).realm) h)
  · exact stays_throw _

end

end EntityGraph
