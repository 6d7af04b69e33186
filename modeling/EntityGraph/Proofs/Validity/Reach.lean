import EntityGraph.Proofs.Document.Spread
import EntityGraph.Proofs.Request.Entries
import EntityGraph.Validity.Document
import Mathlib.Data.List.Perm.Subperm

/-!
# What fragments lead to

The rules follow spreads by gathering names, as many times as there are fragments. Every time some
name is new or all that is led to has been found, and no more names can be new than there are
fragments. So what is gathered is what is contained, however far inside. In a valid document all
fragments that are opened are there, and none contains itself.
-/

namespace EntityGraph.Validity

open Document Interface

variable {sys : TypeSystem} {d : Document}

/-! ## Spreads -/

theorem opened_append (ms ms' : List Mention) : opened (ms ++ ms') = opened ms ++ opened ms' :=
  List.filterMap_append

/-- The fragments that selections open do not depend on the objects beneath which they stand. -/
theorem opened_mentionsAll (parent : Option TypeDef) (ss : List Selection) :
    opened (mentionsAll sys parent ss) = spreads ss := by
  induction ss using selections_induct generalizing parent with
  | nil => rfl
  | field label name args ds tt ss ihb ih =>
    rw [mentionsAll, mentions, opened_append, ih, spreads_field]
    exact congrArg (· ++ _) (ihb _)
  | spread name ds ss ih =>
    rw [mentionsAll, mentions, opened_append, ih, spreads_spread]
    rfl
  | inline onType ds tt ss ihb ih =>
    rw [mentionsAll, mentions, opened_append, ih, spreads_inline]
    exact congrArg (· ++ _) (ihb _)

theorem mem_openedBy {a b : String} :
    b ∈ openedBy sys d a ↔ Contains (fragments d) a b := by
  unfold openedBy Contains
  cases fragment? (fragments d) a with
  | none => simp
  | some f => simp [inFragment, opened_mentionsAll]

/-! ## Gathering -/

theorem nodup_addNames {found : List String} (nodup : found.Nodup) (names : List String) :
    (addNames found names).Nodup :=
  (Materialize.distinct_names names found nodup).1

theorem mem_addNames {found : List String} (nodup : found.Nodup) {names : List String}
    {n : String} : n ∈ addNames found names ↔ n ∈ found ∨ n ∈ names :=
  (Materialize.distinct_names names found nodup).2 n

theorem addNames_subset {found names : List String} (known : names ⊆ found) :
    addNames found names = found := by
  induction names with
  | nil => rfl
  | cons n names ih =>
    rw [List.cons_subset] at known
    rw [addNames, List.foldl_cons, if_pos (List.contains_iff_mem.2 known.1)]
    exact ih known.2

/-- Whether all that names lead to is among them. -/
def Closed (fs : List Fragment) (names : List String) : Prop :=
  ∀ a ∈ names, ∀ b, Contains fs a b → b ∈ names

theorem reachWithin_closed_eq {found : List String} (closed : Closed (fragments d) found)
    (n : Nat) : reachWithin sys d n found = found := by
  induction n with
  | zero => rfl
  | succ n ih =>
    rw [reachWithin, addNames_subset, ih]
    intro b hb
    obtain ⟨a, ha, hb⟩ := List.mem_flatMap.1 hb
    exact closed a ha b (mem_openedBy.1 hb)

/-- Names are closed once they were gathered as often as there are names to be found. -/
theorem reachWithin_closed {known : List String} (whole : Closed (fragments d) known) (n : Nat)
    {found : List String} (nodup : found.Nodup) (among : found ⊆ known)
    (enough : known.length ≤ found.length + n) :
    Closed (fragments d) (reachWithin sys d n found) := by
  induction n generalizing found with
  | zero =>
    have all : found.Perm known := (nodup.subperm among).perm_of_length_le enough
    exact fun a ha b contains => all.mem_iff.2 (whole a (all.mem_iff.1 ha) b contains)
  | succ n ih =>
    by_cases closed : Closed (fragments d) found
    · rw [reachWithin_closed_eq closed]
      exact closed
    · unfold Closed at closed
      push Not at closed
      obtain ⟨a, ha, b, contains, new⟩ := closed
      have more {m : String} :
          m ∈ addNames found (found.flatMap (openedBy sys d)) ↔ _ := mem_addNames nodup
      have longer : (b :: found).Subperm (addNames found (found.flatMap (openedBy sys d))) := by
        refine (List.nodup_cons.2 ⟨new, nodup⟩).subperm (List.cons_subset.2 ⟨?_, ?_⟩)
        · exact more.2 (.inr (List.mem_flatMap.2 ⟨a, ha, mem_openedBy.2 contains⟩))
        · exact fun m hm => more.2 (.inl hm)
      refine ih (nodup_addNames nodup _) (fun m hm => ?_) ?_
      · rcases more.1 hm with hm | hm
        · exact among hm
        · obtain ⟨c, hc, hm⟩ := List.mem_flatMap.1 hm
          exact whole c (among hc) m (mem_openedBy.1 hm)
      · have := longer.length_le
        rw [List.length_cons] at this
        omega

theorem reachWithin_subset (n : Nat) {found : List String} (nodup : found.Nodup) :
    found ⊆ reachWithin sys d n found := by
  induction n generalizing found with
  | zero => exact fun _ => id
  | succ n ih =>
    exact fun m hm => ih (nodup_addNames nodup _) ((mem_addNames nodup).2 (.inl hm))

/-- What is gathered is contained in what it started with. -/
theorem reachWithin_contained (n : Nat) {found : List String} (nodup : found.Nodup) {m : String}
    (hm : m ∈ reachWithin sys d n found) :
    ∃ a ∈ found, Relation.ReflTransGen (Contains (fragments d)) a m := by
  induction n generalizing found with
  | zero => exact ⟨m, hm, .refl⟩
  | succ n ih =>
    obtain ⟨b, hb, path⟩ := ih (nodup_addNames nodup _) hm
    rcases (mem_addNames nodup).1 hb with hb | hb
    · exact ⟨b, hb, path⟩
    · obtain ⟨a, ha, hb⟩ := List.mem_flatMap.1 hb
      exact ⟨a, ha, .head (mem_openedBy.1 hb) path⟩

/-- Names lead to what they contain, if all fragments that are opened are there. -/
theorem mem_reach (defined : ∀ n f, fragment? (fragments d) n = some f →
      Defined (fragments d) f.selections) {names : List String}
    (known : ∀ n ∈ names, (fragment? (fragments d) n).isSome) {m : String} :
    m ∈ reach sys d names ↔ ∃ n ∈ names, Relation.ReflTransGen (Contains (fragments d)) n m := by
  have nodup := nodup_addNames List.nodup_nil names
  have start {n : String} : n ∈ addNames [] names ↔ n ∈ names :=
    (mem_addNames List.nodup_nil).trans (by simp)
  constructor
  · intro hm
    obtain ⟨n, hn, path⟩ := reachWithin_contained _ nodup hm
    exact ⟨n, start.1 hn, path⟩
  · rintro ⟨n, hn, path⟩
    have whole : Closed (fragments d) ((fragments d).map (·.name)) := by
      rintro a _ b ⟨f, found, opens⟩
      exact mem_names (defined a f found b opens)
    have closed : Closed (fragments d) (reach sys d names) :=
      reachWithin_closed whole _ nodup (fun n hn => mem_names (known n (start.1 hn)))
        (by rw [List.length_map]; omega)
    induction path with
    | refl => exact reachWithin_subset _ nodup (start.2 hn)
    | tail _ contains ih => exact closed _ ih _ contains

/-! ## Valid documents -/

theorem areUnique_iff {names : List String} : areUnique names = true ↔ names.Nodup := by
  induction names with
  | nil => simp [areUnique]
  | cons n ns ih => simp [areUnique, ih]

theorem isSome_fragment? {fs : List Fragment} {n : String} :
    (fragment? fs n).isSome ↔ n ∈ fs.map (·.name) := by
  refine ⟨mem_names, fun hn => ?_⟩
  obtain ⟨f, hf, rfl⟩ := List.mem_map.1 hn
  exact List.find?_isSome.2 ⟨f, List.mem_reverse.2 hf, beq_self_eq_true _⟩

/-- Where names are unique, a fragment is found under its name. -/
theorem fragment?_of_mem {fs : List Fragment} (unique : (fs.map (·.name)).Nodup) {f : Fragment}
    (hf : f ∈ fs) : fragment? fs f.name = some f := by
  obtain ⟨g, found⟩ := Option.isSome_iff_exists.1
    (isSome_fragment?.2 (List.mem_map_of_mem (f := (·.name)) hf))
  rw [found, List.inj_on_of_nodup_map unique (fragment?_mem found) hf (fragment?_name found)]

theorem mem_opened_inDocument {n : String} :
    n ∈ opened (inDocument sys d) ↔ (∃ o ∈ operations d, n ∈ spreads o.selections)
      ∨ ∃ f ∈ fragments d, n ∈ spreads f.selections := by
  have among {α : Type} (xs : List α) (within : α → List Mention) :
      n ∈ opened (xs.flatMap within) ↔ ∃ x ∈ xs, n ∈ opened (within x) := by
    simp only [opened, List.mem_filterMap, List.mem_flatMap]
    grind
  rw [inDocument, opened_append, List.mem_append, among, among]
  simp only [inOperation, inFragment, opened_mentionsAll]

/-- Whether the spreads of a document can be followed: fragments have unique names, are there
wherever they are opened, and do not contain themselves. -/
structure Resolved (d : Document) : Prop where
  unique : ((fragments d).map (·.name)).Nodup
  founded : Founded (fragments d)
  defined : ∀ o ∈ operations d, Defined (fragments d) o.selections

/-- Whether the spreads of a document are in order: they can be followed, and every fragment is
reached from some operation. -/
structure InOrder (d : Document) : Prop extends Resolved d where
  used : ∀ f ∈ fragments d, ∃ o ∈ operations d, ∃ n ∈ spreads o.selections,
    Relation.ReflTransGen (Contains (fragments d)) n f.name

/-- The fragments of an operation are those that its spreads contain. -/
theorem mem_fragmentsOf (resolved : Resolved d) {o : Operation} (ho : o ∈ operations d)
    {m : String} : m ∈ fragmentsOf sys d o
      ↔ ∃ n ∈ spreads o.selections, Relation.ReflTransGen (Contains (fragments d)) n m := by
  rw [fragmentsOf, inOperation, opened_mentionsAll]
  exact mem_reach resolved.founded.defined (resolved.defined o ho)

/-- Whether all fragments that are opened anywhere in a document are there. -/
theorem fragmentsKnown_iff : fragmentsKnown sys d = true
    ↔ (∀ o ∈ operations d, Defined (fragments d) o.selections)
      ∧ ∀ f ∈ fragments d, Defined (fragments d) f.selections := by
  have each : fragmentsKnown sys d = true
      ↔ ∀ n ∈ opened (inDocument sys d), (fragment? (fragments d) n).isSome := by
    simp only [fragmentsKnown, List.all_eq_true, isSome_fragment?, List.any_eq_true, List.mem_map,
      beq_iff_eq]
  rw [each]
  simp only [mem_opened_inDocument, Defined]
  grind

/-- A fragment is reached from what it opens exactly if it contains itself. -/
theorem mem_reach_own (defined : ∀ n f, fragment? (fragments d) n = some f →
      Defined (fragments d) f.selections) {n : String} :
    n ∈ reach sys d (openedBy sys d n) ↔ Relation.TransGen (Contains (fragments d)) n n := by
  have known : ∀ m ∈ openedBy sys d n, (fragment? (fragments d) m).isSome := by
    intro m hm
    obtain ⟨f, found, opens⟩ := mem_openedBy.1 hm
    exact defined n f found m opens
  rw [mem_reach defined known, Relation.TransGen.head'_iff]
  simp only [mem_openedBy]

theorem isAcyclic_iff (defined : ∀ f ∈ fragments d, Defined (fragments d) f.selections) :
    isAcyclic sys d = true ↔ Founded (fragments d) := by
  have each n f (found : fragment? (fragments d) n = some f) := defined f (fragment?_mem found)
  simp only [isAcyclic, List.all_eq_true, Bool.not_eq_true', List.contains_eq_mem,
    decide_eq_false_iff_not, mem_reach_own each]
  refine ⟨fun none => ⟨each, fun n own => ?_⟩, fun founded f _ => founded.acyclic _⟩
  obtain ⟨_, ⟨f, found, _⟩, _⟩ := Relation.TransGen.head'_iff.1 own
  exact none f (fragment?_mem found) (fragment?_name found ▸ own)

theorem fragmentsUsed_iff (resolved : Resolved d) :
    fragmentsUsed sys d = true ↔ ∀ f ∈ fragments d, ∃ o ∈ operations d, ∃ n ∈ spreads o.selections,
      Relation.ReflTransGen (Contains (fragments d)) n f.name := by
  simp only [fragmentsUsed, List.all_eq_true, List.contains_iff_mem, List.mem_flatMap]
  refine forall₂_congr fun f _ => exists_congr fun o => and_congr_right fun ho => ?_
  exact mem_fragmentsOf resolved ho

/-- The spreads of a document are in order exactly if it obeys the four rules for them. -/
theorem inOrder_iff (sys : TypeSystem) : InOrder d
    ↔ fragmentsNamed d = true ∧ fragmentsKnown sys d = true ∧ fragmentsUsed sys d = true
      ∧ isAcyclic sys d = true := by
  rw [fragmentsNamed, areUnique_iff, fragmentsKnown_iff]
  constructor
  · intro h
    have each f (hf : f ∈ fragments d) :=
      h.founded.defined _ f (fragment?_of_mem h.unique hf)
    exact ⟨h.unique, ⟨h.defined, each⟩, (fragmentsUsed_iff h.toResolved).2 h.used,
      (isAcyclic_iff each).2 h.founded⟩
  · rintro ⟨unique, ⟨defined, each⟩, used, acyclic⟩
    have resolved : Resolved d := ⟨unique, (isAcyclic_iff each).1 acyclic, defined⟩
    exact ⟨resolved, (fragmentsUsed_iff resolved).1 used⟩

/-- Where spreads can be followed, they are all defined, and no fragment contains itself. -/
theorem Resolved.flattens (h : Resolved d) : Flattens d := by
  refine ⟨fun tt ht => ?_, h.founded.acyclic⟩
  rcases List.mem_append.1 ht with ht | ht
  · obtain ⟨o, ho, rfl⟩ := List.mem_map.1 ht
    exact h.defined o ho
  · obtain ⟨f, hf, rfl⟩ := List.mem_map.1 ht
    exact h.founded.defined _ f (fragment?_of_mem h.unique hf)

theorem isValid_inOrder (h : d.isValid sys = true) : InOrder d := by
  simp only [Document.isValid, structureHolds, Bool.and_eq_true] at h
  obtain ⟨⟨⟨⟨⟨⟨⟨⟨⟨⟨⟨_, _⟩, named⟩, known⟩, used⟩, acyclic⟩, _⟩, _⟩, _⟩, _⟩, _⟩, _⟩ := h
  exact (inOrder_iff sys).2 ⟨named, known, used, acyclic⟩

end EntityGraph.Validity
