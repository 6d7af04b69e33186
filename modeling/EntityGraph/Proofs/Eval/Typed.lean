import EntityGraph.Proofs.Eval.Permuted
import EntityGraph.Proofs.Fails
import EntityGraph.Proofs.Value.Hinted
import EntityGraph.Eval.Evaluate

/-!
# The classes of what evaluation computes

What operators and operations on sequences make of values of some class is of a class that can be
told beforehand. Comparisons and tests give truth values, unless they are recorded; a negation gives
a value of the same class, unless it is that of a truth value, which is a number; and operations on
sequences give lists of the elements that they were applied to, single ones of these, or a number.
-/

namespace EntityGraph

theorem Builtin.mem_lineage (b : Builtin) : b ∈ b.lineage := by
  cases b <;> decide

namespace Value

variable {w : World} {u v r : Value} {b c : Builtin}

/-! ## New values -/

@[simp] theorem typeIn_withMark (w : World) (v : Value) (mark : Nat) :
    (v.withMark mark).typeIn w = v.typeIn w := by
  cases v <;> rfl

theorem typeIn_owned {s t : Trail} (h : runOn v.owned s = (.ok u, t)) :
    u.typeIn w = v.typeIn w := by
  unfold owned at h
  split at h
  · obtain ⟨mark, _, -, h⟩ := bind_eq_ok h
    cases h
    exact typeIn_withMark w v mark
  · cases h
    rfl

theorem typeIn_settled {s t : Trail} (h : runOn v.settled s = (.ok u, t)) :
    u.typeIn w = v.typeIn w := by
  cases v with
  | list vs | tuple vs | dict es =>
    obtain ⟨_, _, -, h⟩ := bind_eq_ok h
    cases h
    rfl
  | orderedDict es m =>
    obtain ⟨es', _, -, h⟩ := bind_eq_ok h
    exact (typeIn_owned h).trans rfl
  | _ => exact typeIn_owned h

/-- A value that becomes an object of its own is of the class it was of before. -/
theorem typeIn_own {x : Outcome Value} {s t : Trail} (h : runOn (own x) s = (.ok u, t)) :
    ∃ v, x = .ok v ∧ u.typeIn w = v.typeIn w := by
  obtain ⟨v, _, computed, h⟩ := bind_eq_ok h
  obtain ⟨rfl, rfl⟩ := outcome_of_run computed
  refine ⟨v, rfl, ?_⟩
  split at h
  · exact typeIn_settled h
  · cases h
    rfl

theorem memory_own {x : Outcome Value} {s t : Trail} (h : runOn (own x) s = (.ok u, t)) :
    t.memory = s.memory :=
  ((maintains_own (I := fun t => t.memory = s.memory) (E := fun _ => True) (fun _ => id)
    fun _ _ => trivial).run rfl h).2

/-! ## Instances of built-in classes -/

theorem builtin_of_isA {t : HostType} (isA : v.IsA w t) (own : v.typeIn w = .builtin c) :
    ∃ b, t = .builtin b := by
  cases t with
  | builtin b => exact ⟨b, rfl⟩
  | _ => simp [IsA, own, Classes.ancestry] at isA

theorem isA_of_lineage (own : v.typeIn w = .builtin c) (h : b ∈ c.lineage) (some : b ≠ .noneType) :
    v.IsA w (.builtin b) := by
  have extended : HostType.builtin b ∈ w.classes.ancestry (v.typeIn w) := by
    rw [own]
    exact List.mem_map_of_mem h
  cases b <;> first | exact .inr extended | exact absurd rfl some

theorem lineage_of_isA (isA : v.IsA w (.builtin b)) (own : v.typeIn w = .builtin c)
    (plain : v.tupleView? w = Option.none) (present : v ≠ none) : b ∈ c.lineage := by
  have extended (h : HostType.builtin b ∈ w.classes.ancestry (v.typeIn w)) : b ∈ c.lineage := by
    simpa [own, Classes.ancestry] using h
  have direct (h : v.isInstance w b) : b ∈ c.lineage := by
    have self := Builtin.mem_lineage b
    unfold isInstance at h
    rw [own, plain] at h
    split at h <;> simp_all [Builtin.lineage]
  cases b with
  | noneType => exact absurd isA present
  | _ => exact isA.elim direct extended

/-! ## Negation -/

/-- The class of the negations of the values of a class. -/
def negated : Builtin → Builtin
  | .bool => .int
  | b => b

/-- What can be negated is a number, a span of time or a proxy, and so is its negation. -/
theorem negate_sort (h : v.negate w = .ok u) :
    ∃ c ∈ [Builtin.bool, .int, .float, .decimal, .complex, .span, .proxy],
      v.typeIn w = .builtin c ∧ u.typeIn w = .builtin (negated c) ∧ v.tupleView? w = Option.none
      ∧ v ≠ none ∧ ∃ f, v.elements w = .error f := by
  cases v with
  | bool b | int n | float x m | complex z m =>
    cases h
    exact ⟨_, by decide, rfl, rfl, rfl, nofun, _, rfl⟩
  | decimal d m =>
    cases made : d.neg with
    | error e =>
      simp only [negate, neg, ofDecimal, made] at h
      cases h
    | ok d' =>
      simp only [negate, neg, ofDecimal, made] at h
      cases h
      exact ⟨_, by decide, rfl, rfl, rfl, nofun, _, rfl⟩
  | span s =>
    simp only [negate, neg, spanOf] at h
    split at h
    · cases h
      exact ⟨_, by decide, rfl, rfl, rfl, nofun, _, rfl⟩
    · cases h
  | proxy r m =>
    obtain ⟨e, -, h⟩ := outcome_bind_ok h
    cases h
    exact ⟨_, by decide, rfl, rfl, rfl, nofun, _, rfl⟩
  | _ => cases h

/-- A negation is an instance of what the value is an instance of, unless that are truth values. -/
theorem IsA.negation {v' : Value} {t : HostType} (isA : v.IsA w t) (h : v.negate w = .ok u)
    (own : v'.typeIn w = u.typeIn w) (number : t ≠ .builtin .bool) : v'.IsA w t := by
  obtain ⟨c, sort, before, after, plain, present, -⟩ := negate_sort h
  obtain ⟨b, rfl⟩ := builtin_of_isA isA before
  have kept : ∀ c ∈ [Builtin.bool, .int, .float, .decimal, .complex, .span, .proxy],
      ∀ b ∈ c.lineage, b ≠ .bool → b ∈ (negated c).lineage ∧ b ≠ .noneType := by decide
  have lineage := lineage_of_isA isA before plain present
  obtain ⟨extended, some⟩ := kept c sort b lineage (by simpa using number)
  exact isA_of_lineage (own.trans after) extended some

/-! ## Comparisons and tests -/

/-- Whether a value is a truth value or the record of an operation. -/
def IsTest (v : Value) : Prop := (∃ b, v = bool b) ∨ ∃ e, v = ofRecorded e

theorem isTest_of_outcome {x : Outcome Bool} {f : Bool → Bool}
    (h : (do .ok (bool (f (← x)))) = Except.ok r) : IsTest r := by
  obtain ⟨b, -, h⟩ := outcome_bind_ok h
  cases h
  exact .inl ⟨f b, rfl⟩

theorem isTest_recordBinary {op : BinaryOp} (h : recordBinary w op u v = .ok r) : IsTest r := by
  obtain ⟨e, -, h⟩ := outcome_bind_ok h
  cases h
  exact .inr ⟨e, rfl⟩

theorem isTest_operate {op : ScriptOp} (comparison : op ∈ [ScriptOp.eq, .ne, .gt, .ge, .lt, .le])
    (h : operate w op u v = .ok r) : IsTest r := by
  unfold operate at h
  split at h
  · exact isTest_recordBinary h
  · split at h
    · next answer answered =>
      unfold answersFirst at answered
      split at answered <;> cases answered
      · simp at comparison
      · simp at comparison
      · cases h
        exact .inl ⟨_, rfl⟩
      · cases h
        exact .inl ⟨_, rfl⟩
    · split at h <;> exact isTest_recordBinary h
  · cases op with
    | eq | ne | lt | le | gt | ge => exact isTest_of_outcome h
    | _ => simp at comparison

end Value

namespace BinaryOp

variable {w : World} {op : BinaryOp} {u v r : Value}

theorem isTest_applyMissing (boolean : op.isBoolean) : (op.applyMissing u v).IsTest := by
  simp only [isBoolean, Bool.not_eq_true'] at boolean
  unfold applyMissing
  rw [boolean, if_neg Bool.false_ne_true]
  split <;> exact .inl ⟨_, rfl⟩

theorem isTest_applyPresent (boolean : op.isBoolean) (h : op.applyPresent w u v = .ok r) :
    r.IsTest := by
  cases op with
  | and | or =>
    obtain ⟨holds, -, h⟩ := outcome_bind_ok h
    split at h
    all_goals first
      | exact Value.isTest_of_outcome h
      | cases h
        exact .inl ⟨_, rfl⟩
  | eq | ne | gt | ge | lt | le => exact Value.isTest_operate (by decide) h
  | contains | inCollection => exact Value.isTest_of_outcome h
  | _ => cases boolean

/-- What a boolean operator gives is a truth value, unless it is recorded. -/
theorem isTest_apply (boolean : op.isBoolean) (h : op.apply w u v = .ok r) : r.IsTest := by
  unfold apply at h
  split at h
  · exact isTest_applyPresent rfl h
  · exact isTest_applyPresent rfl h
  · split at h
    · cases h
      exact isTest_applyMissing boolean
    · exact isTest_applyPresent boolean h

end BinaryOp

/-! ## Operations on sequences -/

namespace Eval

variable {w : World} {op : SeqOp} {self : Expr Value} {vs ws : List Value} {r : Value} {s t : Trail}

theorem sublist_keep {test : Value → Making Value} (h : runOn (keep w test vs) s = (.ok ws, t)) :
    ws.Sublist vs := by
  induction vs generalizing ws s with
  | nil =>
    cases h
    exact .slnil
  | cons v vs ih =>
    obtain ⟨u, _, -, h⟩ := bind_eq_ok h
    obtain ⟨now, _, -, h⟩ := bind_eq_ok h
    obtain ⟨holds, _, -, h⟩ := bind_eq_ok h
    split at h
    · obtain ⟨rest, _, kept, h⟩ := bind_eq_ok h
      cases h
      exact (ih kept).cons_cons v
    · exact (ih h).cons v

theorem snd_of_keyed {key : Value → Making Value} {keyed : List Sorting.Keyed}
    (h : runOn (vs.mapM fun v => do return (← key v, v)) s = (.ok keyed, t)) :
    keyed.map (·.2) = vs := by
  induction vs generalizing s keyed with
  | nil =>
    cases h
    rfl
  | cons v vs ih =>
    rw [List.mapM_cons] at h
    obtain ⟨first, _, made, h⟩ := bind_eq_ok h
    obtain ⟨k, _, -, made⟩ := bind_eq_ok made
    cases made
    obtain ⟨rest, _, more, h⟩ := bind_eq_ok h
    cases h
    rw [List.map_cons, ih more]

/-- Sorting by keys gives a list of the same elements. -/
theorem perm_sorted {key : Value → Making Value} {down : Bool}
    (h : runOn (sorted w key down vs) s = (.ok r, t)) : ∃ ws, r = .list ws ∧ ws.Perm vs := by
  obtain ⟨keyed, _, keys, h⟩ := bind_eq_ok h
  obtain ⟨now, _, -, h⟩ := bind_eq_ok h
  rw [← snd_of_keyed keys]
  cases down
  · obtain ⟨done, _, sorted, h⟩ := bind_eq_ok h
    cases h
    exact ⟨_, rfl, (Sorting.ascending_perm (outcome_of_run sorted).1).map _⟩
  · obtain ⟨done, _, sorted, h⟩ := bind_eq_ok h
    cases h
    exact ⟨_, rfl, (Sorting.descending_perm (outcome_of_run sorted).1).map _⟩

theorem slice_ok {count : Value} (h : slice w op vs count = .ok r) :
    ∃ ws, r = .list ws ∧ ws ⊆ vs := by
  unfold slice at h
  split at h
  · cases h
    exact ⟨vs, rfl, List.Subset.refl vs⟩
  · obtain ⟨n, -, h⟩ := outcome_bind_ok h
    cases h
    refine ⟨_, rfl, ?_⟩
    split
    · exact List.take_subset n vs
    · exact List.drop_subset n vs

/-- What an operation makes of some of the elements of a sequence. -/
def Concluded (op : SeqOp) (vs : List Value) (r : Value) : Prop :=
  match op with
  | .count => ∃ n, r = .int n
  | .any => ∃ b, r = .bool b
  | .first | .firstOrDefault => r = .none ∨ r ∈ vs
  | .select => ∃ ws, r = .list ws
  | _ => ∃ ws, r = .list ws ∧ ws ⊆ vs

theorem concluded_conclude (h : conclude op self ws = .ok r) (sub : ws ⊆ vs) :
    Concluded op vs r := by
  cases op with
  | first =>
    cases ws with
    | nil => cases h
    | cons v ws =>
      cases h
      exact .inr (sub (List.mem_cons_self ..))
  | firstOrDefault =>
    cases h
    cases ws with
    | nil => exact .inl rfl
    | cons v ws => exact .inr (sub (List.mem_cons_self ..))
  | count | any | select =>
    cases h
    exact ⟨_, rfl⟩
  | _ =>
    cases h
    exact ⟨ws, rfl, sub⟩

theorem concluded_applyFunction {function : Option (Value → Making Value)}
    (h : runOn (applyFunction w op self function vs) s = (.ok r, t)) : Concluded op vs r := by
  unfold applyFunction at h
  split at h
  · obtain ⟨ws, _, -, h⟩ := bind_eq_ok h
    cases h
    exact ⟨ws, rfl⟩
  · obtain ⟨ws, rfl, moved⟩ := perm_sorted h
    exact ⟨ws, rfl, moved.subset⟩
  · obtain ⟨ws, rfl, moved⟩ := perm_sorted h
    exact ⟨ws, rfl, moved.subset⟩
  · obtain ⟨ws, _, kept, h⟩ := bind_eq_ok h
    exact concluded_conclude (outcome_of_run h).1 (sublist_keep kept).subset
  · exact concluded_conclude (outcome_of_run h).1 (List.Subset.refl vs)

end Eval

end EntityGraph
