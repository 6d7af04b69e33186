import EntityGraph.Proofs.Validity.Unrolled

/-!
# Documents with spreads written out

When spreads of a document are written out, some of its fragments may no longer be used. Without
these, the document is valid if it was valid before: its spreads are still in order, and each of its
selections is written out, in the end, to one to which a selection of the first document is written
out beneath the same object. Of such selections the rules say the same.
-/

namespace EntityGraph.Document

open Interface

/-- Operations of which the second one is the first one with some spreads written out. -/
structure Operation.Inlined (fs : List Fragment) (o o' : Operation) : Prop where
  same : o' = { o with selections := o'.selections }
  selections : Document.Inlined fs o.selections o'.selections

/-- Fragments of which the second one is the first one with some spreads written out. -/
structure Fragment.Inlined (fs : List Fragment) (f f' : Fragment) : Prop where
  same : f' = { f with selections := f'.selections }
  selections : Document.Inlined fs f.selections f'.selections

/-- Definitions of which the second one is the first one with some spreads written out. -/
inductive Definition.Inlined (fs : List Fragment) : Definition → Definition → Prop
  | operation {o o' : Operation} (h : o.Inlined fs o') : Inlined fs (.operation o) (.operation o')
  | fragment {f f' : Fragment} (h : f.Inlined fs f') : Inlined fs (.fragment f) (.fragment f')
  | types : Inlined fs .types .types

/-- Documents of which the second one is the first one with some spreads written out. -/
def InlinedIn (d d' : Document) : Prop := List.Forall₂ (Definition.Inlined (fragments d)) d d'

/-- A document without the fragments that none of its operations reaches. -/
def dropUnused (sys : TypeSystem) (d : Document) : Document :=
  let used := (operations d).flatMap (Validity.fragmentsOf sys d)
  d.filter fun
    | .fragment f => used.contains f.name
    | _ => true

theorem InlinedIn.operations {d d' : Document} (h : InlinedIn d d') :
    List.Forall₂ (Operation.Inlined (fragments d)) (operations d) (operations d') := by
  refine List.rel_filterMap (fun x x' related => ?_) h
  cases related with
  | operation h => exact .some h
  | fragment => exact .none
  | types => exact .none

theorem InlinedIn.fragments {d d' : Document} (h : InlinedIn d d') :
    List.Forall₂ (Fragment.Inlined (fragments d)) (fragments d) (Document.fragments d') := by
  refine List.rel_filterMap (fun x x' related => ?_) h
  cases related with
  | operation => exact .none
  | fragment h => exact .some h
  | types => exact .none

end EntityGraph.Document

namespace EntityGraph.Validity

open Document Interface

section

variable {α β γ : Type} {R : α → β → Prop} {as : List α} {bs : List β}

theorem related_mem (h : List.Forall₂ R as bs) {b : β} (hb : b ∈ bs) : ∃ a ∈ as, R a b := by
  induction h with
  | nil => cases hb
  | @cons a _ as _ first _ ih =>
    rcases List.mem_cons.1 hb with rfl | hb
    · exact ⟨a, List.mem_cons_self, first⟩
    · obtain ⟨x, hx, related⟩ := ih hb
      exact ⟨x, List.mem_cons_of_mem _ hx, related⟩

theorem related_map {f : α → γ} {g : β → γ} (h : List.Forall₂ R as bs)
    (each : ∀ a b, R a b → g b = f a) : bs.map g = as.map f := by
  induction h with
  | nil => rfl
  | cons first _ ih => rw [List.map_cons, List.map_cons, each _ _ first, ih]

end

section

variable {sys : TypeSystem} {d d' : Document}

/-! ## Fragments that are used -/

theorem operations_dropUnused : operations (dropUnused sys d) = operations d := by
  unfold dropUnused operations
  rw [List.filterMap_filter]
  refine List.filterMap_congr fun x _ => ?_
  cases x with
  | fragment f => dsimp only; split <;> rfl
  | operation => rfl
  | types => rfl

theorem fragments_dropUnused :
    fragments (dropUnused sys d) = (fragments d).filter fun f =>
      ((operations d).flatMap (fragmentsOf sys d)).contains f.name := by
  unfold dropUnused fragments
  rw [List.filterMap_filter, List.filter_filterMap]
  refine List.filterMap_congr fun x _ => ?_
  cases x with
  | fragment f => rfl
  | operation => rfl
  | types => rfl

/-- Whether an operation of a document reaches a fragment. -/
def Used (d : Document) (n : String) : Prop :=
  ∃ o ∈ operations d, ∃ k ∈ spreads o.selections,
    Relation.ReflTransGen (Contains (fragments d)) k n

theorem mem_fragments_dropUnused (resolved : Resolved d) {f : Fragment} :
    f ∈ fragments (dropUnused sys d) ↔ f ∈ fragments d ∧ Used d f.name := by
  rw [fragments_dropUnused, List.mem_filter, List.contains_iff_mem, List.mem_flatMap]
  refine and_congr_right fun _ => exists_congr fun o => and_congr_right fun ho => ?_
  exact mem_fragmentsOf resolved ho

theorem fragment?_dropUnused (resolved : Resolved d) {n : String} {f : Fragment} :
    fragment? (fragments (dropUnused sys d)) n = some f
      ↔ fragment? (fragments d) n = some f ∧ Used d n := by
  have unique : ((fragments (dropUnused sys d)).map (·.name)).Nodup := by
    rw [fragments_dropUnused]
    exact resolved.unique.sublist (List.filter_sublist.map _)
  constructor
  · intro found
    obtain ⟨among, used⟩ := (mem_fragments_dropUnused resolved).1 (fragment?_mem found)
    rw [← fragment?_name found]
    exact ⟨fragment?_of_mem resolved.unique among, used⟩
  · rintro ⟨found, used⟩
    rw [← fragment?_name found] at used ⊢
    exact fragment?_of_mem unique
      ((mem_fragments_dropUnused resolved).2 ⟨fragment?_mem found, used⟩)

theorem contains_dropUnused (resolved : Resolved d) {a b : String} :
    Contains (fragments (dropUnused sys d)) a b ↔ Contains (fragments d) a b ∧ Used d a := by
  simp only [Contains, fragment?_dropUnused resolved]
  grind

/-- Without the fragments that are not used, the spreads of a document are in order if they could be
followed. -/
theorem Resolved.dropUnused (resolved : Resolved d) : InOrder (dropUnused sys d) := by
  have follows {a b : String} (used : Used d a) (contains : Contains (fragments d) a b) :
      Used d b := by
    obtain ⟨o, ho, k, hk, path⟩ := used
    exact ⟨o, ho, k, hk, path.tail contains⟩
  have there {n : String} (known : (fragment? (fragments d) n).isSome) (used : Used d n) :
      (fragment? (fragments (Document.dropUnused sys d)) n).isSome := by
    obtain ⟨f, found⟩ := Option.isSome_iff_exists.1 known
    exact Option.isSome_iff_exists.2 ⟨f, (fragment?_dropUnused resolved).2 ⟨found, used⟩⟩
  refine ⟨⟨?_, ⟨fun n f found m opens => ?_, fun n own => ?_⟩, fun o ho m opens => ?_⟩,
    fun f hf => ?_⟩
  · rw [fragments_dropUnused]
    exact resolved.unique.sublist (List.filter_sublist.map _)
  · obtain ⟨before, used⟩ := (fragment?_dropUnused resolved).1 found
    exact there (resolved.founded.defined n f before m opens) (follows used ⟨f, before, opens⟩)
  · refine resolved.founded.acyclic n (Relation.TransGen.mono ?_ n n own)
    exact fun a b contains => ((contains_dropUnused resolved).1 contains).1
  · rw [operations_dropUnused] at ho
    exact there (resolved.defined o ho m opens) ⟨o, ho, m, opens, .refl⟩
  · obtain ⟨_, o, ho, k, hk, path⟩ := (mem_fragments_dropUnused resolved).1 hf
    refine ⟨o, operations_dropUnused.symm ▸ ho, k, hk, ?_⟩
    generalize f.name = n at path
    -- Whatever stands on the way from an operation to a fragment is used, too.
    induction path with
    | refl => exact .refl
    | tail before contains ih =>
      exact ih.tail ((contains_dropUnused resolved).2 ⟨contains, o, ho, k, hk, before⟩)

/-! ## Fragments that are written out -/

/-- A document whose spreads are in order, and one that has the same operations and some of the same
fragments with some spreads written out, where they are in order as well. -/
structure Rewrites (d d' : Document) : Prop where
  order : InOrder d
  order' : InOrder d'
  operations : List.Forall₂ (Operation.Inlined (fragments d)) (operations d) (operations d')
  fragments : ∀ f' ∈ fragments d', ∃ f ∈ fragments d, f.Inlined (fragments d) f'

section

variable (resolved : Resolved d) (h : InlinedIn d d')

include resolved h

theorem fragment?_inlined {n : String} {f' : Fragment}
    (found : fragment? (fragments d') n = some f') :
    ∃ f, fragment? (fragments d) n = some f ∧ f.Inlined (fragments d) f' := by
  obtain ⟨f, hf, inlined⟩ := related_mem h.fragments (fragment?_mem found)
  have name : f.name = n := by rw [← fragment?_name found, inlined.same]
  exact ⟨f, name ▸ fragment?_of_mem resolved.unique hf, inlined⟩

omit resolved in
theorem names_inlined : (fragments d').map (·.name) = (fragments d).map (·.name) := by
  refine related_map h.fragments fun f f' inlined => ?_
  rw [inlined.same]

/-- What is opened after spreads were written out was reached before. -/
theorem contains_inlined {a b : String} (contains : Contains (fragments d') a b) :
    Relation.TransGen (Contains (fragments d)) a b := by
  obtain ⟨f', found', opens⟩ := contains
  obtain ⟨f, found, inlined⟩ := fragment?_inlined resolved h found'
  obtain ⟨m, hm, path⟩ := inlined.selections.spreads opens
  exact .head' ⟨f, found, hm⟩ path

/-- The spreads of a document can still be followed after some of them were written out. -/
theorem Resolved.inlined : Resolved d' := by
  have names := names_inlined h
  have there {ss ss' : List Selection} (inlined : Inlined (fragments d) ss ss')
      (defined : Defined (fragments d) ss) : Defined (fragments d') ss' := by
    intro n hn
    obtain ⟨m, hm, path⟩ := inlined.spreads hn
    rw [isSome_fragment?, names, ← isSome_fragment?]
    cases path with
    | refl => exact defined n hm
    | tail _ contains =>
      obtain ⟨f, found, opens⟩ := contains
      exact resolved.founded.defined _ f found n opens
  refine ⟨names ▸ resolved.unique, ⟨fun n f' found' => ?_, fun n own => ?_⟩, fun o' ho' => ?_⟩
  · obtain ⟨f, found, inlined⟩ := fragment?_inlined resolved h found'
    exact there inlined.selections (resolved.founded.defined n f found)
  · refine resolved.founded.acyclic n ?_
    exact Relation.TransGen.closed (fun a b => contains_inlined resolved h) n n own
  · obtain ⟨o, ho, inlined⟩ := related_mem h.operations ho'
    exact there inlined.selections (resolved.defined o ho)

end

/-- What is left of a document after spreads were written out has the same operations and some of
the same fragments. -/
theorem InOrder.rewrites (order : InOrder d) (h : InlinedIn d d') :
    Rewrites d (dropUnused sys d') := by
  have resolved := order.toResolved.inlined h
  refine ⟨order, resolved.dropUnused, operations_dropUnused.symm ▸ h.operations, fun f' hf' => ?_⟩
  exact related_mem h.fragments ((mem_fragments_dropUnused resolved).1 hf').1

/-! ## Selections that are written out -/

namespace Rewrites

variable (rewrites : Rewrites d d')

include rewrites

theorem inlinedFragments : InlinedFragments (Document.fragments d) (Document.fragments d') := by
  intro n f' found'
  obtain ⟨f, hf, inlined⟩ := rewrites.fragments f' (fragment?_mem found')
  have name : f.name = n := by rw [← fragment?_name found', inlined.same]
  refine ⟨f, name ▸ fragment?_of_mem rewrites.order.unique hf, ?_, inlined.selections⟩
  rw [inlined.same]

/-- When all spreads are written out, the same selections are left of both documents. -/
theorem unrolled {ss ss' : List Selection} (h : Inlined (Document.fragments d) ss ss')
    (defined : Defined (Document.fragments d') ss') :
    ∃ tt, Unrolled (Document.fragments d) ss tt ∧ Unrolled (Document.fragments d') ss' tt := by
  obtain ⟨tt, unrolled'⟩ := rewrites.order'.founded.unrolled defined
  exact ⟨tt, h.unrolled rewrites.inlinedFragments unrolled', unrolled'⟩

theorem operation {o' : Operation} (ho' : o' ∈ Document.operations d') :
    ∃ o ∈ Document.operations d, o' = { o with selections := o'.selections }
      ∧ ∃ tt, Unrolled (Document.fragments d) o.selections tt
        ∧ Unrolled (Document.fragments d') o'.selections tt := by
  obtain ⟨o, ho, inlined⟩ := related_mem rewrites.operations ho'
  exact ⟨o, ho, inlined.same,
    rewrites.unrolled inlined.selections (rewrites.order'.defined o' ho')⟩

/-- Every selection of the second document has one of the first, such that both are written out to
the same selection of an operation. -/
theorem mention {m' : Mention} (hm' : m' ∈ inDocument sys d') :
    ∃ m ∈ inDocument sys d, ∃ o ∈ Document.operations d, ∃ tt,
      Unrolled (Document.fragments d) o.selections tt
        ∧ ∃ t ∈ mentionsAll sys (rootOf sys o) tt,
          Shown (Document.fragments d) m t ∧ Shown (Document.fragments d') m' t := by
  obtain ⟨o', ho', hm'⟩ := (mem_inDocument rewrites.order').1 hm'
  obtain ⟨o, ho, same, tt, unrolled, unrolled'⟩ := rewrites.operation ho'
  obtain ⟨t, ht, shown'⟩ := range_shows rewrites.order' ho' unrolled' hm'
  rw [same] at ht
  obtain ⟨m, hm, shown⟩ := range_shown rewrites.order ho unrolled ht
  exact ⟨m, (mem_inDocument rewrites.order).2 ⟨o, ho, hm⟩, o, ho, tt, unrolled, t, ht, shown,
    shown'⟩

/-! ## Rules -/

theorem conditionsHold (h : conditionsHold sys d = true) : conditionsHold sys d' = true := by
  simp only [Validity.conditionsHold, List.all_eq_true] at h ⊢
  intro n hn
  rw [conditions, List.mem_append] at hn
  rcases hn with hn | hn
  · obtain ⟨m', hm', is⟩ := List.mem_filterMap.1 hn
    obtain ⟨m, hm, _, _, _, _, _, _, shown, shown'⟩ := rewrites.mention hm'
    split at is
    · next onType ds ss inline =>
      obtain ⟨_, inline⟩ := shown'.inline inline
      exact h n (shown.condition hm (is ▸ inline))
    · cases is
  · obtain ⟨f', hf', rfl⟩ := List.mem_map.1 hn
    obtain ⟨f, hf, inlined⟩ := rewrites.fragments f' hf'
    rw [inlined.same]
    exact h _ (List.mem_append_right _ (List.mem_map.2 ⟨f, hf, rfl⟩))

theorem spreadsFit (h : spreadsFit sys d = true) : spreadsFit sys d' = true := by
  simp only [Validity.spreadsFit, List.all_eq_true] at h ⊢
  intro m' hm'
  obtain ⟨m, hm, _, _, _, _, _, _, shown, shown'⟩ := rewrites.mention hm'
  rw [← shown'.opensProperly, shown.opensProperly]
  exact h m hm

theorem nestingHolds (h : nestingHolds d = true) : nestingHolds d' = true := by
  simp only [Validity.nestingHolds, List.all_eq_true] at h ⊢
  intro o' ho'
  obtain ⟨o, ho, _, tt, unrolled, unrolled'⟩ := rewrites.operation ho'
  have limit := h o ho
  rw [depthOfAll_unrolled rewrites.order.founded rewrites.order.unique unrolled] at limit
  rw [depthOfAll_unrolled rewrites.order'.founded rewrites.order'.unique unrolled']
  exact limit

theorem fieldsHold (h : fieldsHold sys d = true) : fieldsHold sys d' = true := by
  simp only [Validity.fieldsHold, Bool.and_eq_true, List.all_eq_true] at h ⊢
  refine ⟨fun m' hm' => ?_, ?_⟩
  · obtain ⟨m, hm, _, _, _, _, _, _, shown, shown'⟩ := rewrites.mention hm'
    rw [← shown'.selectionFits, ← shown'.asksTooDeep rewrites.order'.founded, shown.selectionFits,
      shown.asksTooDeep rewrites.order.founded]
    exact h.1 m hm
  · simp only [directivesPlaced, Bool.and_eq_true, List.all_eq_true] at h ⊢
    refine ⟨fun o' ho' => ?_, fun f' hf' => ?_⟩
    · obtain ⟨o, ho, inlined⟩ := related_mem rewrites.operations ho'
      rw [inlined.same]
      exact h.2.1 o ho
    · obtain ⟨f, hf, inlined⟩ := rewrites.fragments f' hf'
      rw [inlined.same]
      exact h.2.2 f hf

/-- The variables of an operation are used at the same places. -/
theorem usages {o o' : Operation} (ho : o ∈ Document.operations d)
    (ho' : o' ∈ Document.operations d') (same : o' = { o with selections := o'.selections })
    {tt : List Selection} (unrolled : Unrolled (Document.fragments d) o.selections tt)
    (unrolled' : Unrolled (Document.fragments d') o'.selections tt) {x : String × Supplied} :
    x ∈ usages sys d' o' ↔ x ∈ usages sys d o := by
  have root : rootOf sys o' = rootOf sys o := by rw [same]; rfl
  have place {d : Document} {o : Operation} {x : String × Supplied} : x ∈ Validity.usages sys d o
      ↔ ∃ m ∈ range sys d o, ∃ y ∈ m.supplied, x.2 ∈ y.parts ∧ x.2.literal = .var x.1 := by
    unfold Validity.usages
    simp only [range, List.mem_filterMap, List.mem_flatMap]
    grind
  rw [place, place]
  constructor
  · rintro ⟨m', hm', y, hy, used⟩
    obtain ⟨t, ht, shown'⟩ := range_shows rewrites.order' ho' unrolled' hm'
    obtain ⟨m, hm, shown⟩ := range_shown rewrites.order ho unrolled (root ▸ ht)
    exact ⟨m, hm, y, by rwa [← shown.supplied, shown'.supplied], used⟩
  · rintro ⟨m, hm, y, hy, used⟩
    obtain ⟨t, ht, shown⟩ := range_shows rewrites.order ho unrolled hm
    obtain ⟨m', hm', shown'⟩ := range_shown rewrites.order' ho' unrolled' (root ▸ ht)
    exact ⟨m', hm', y, by rwa [← shown'.supplied, shown.supplied], used⟩

theorem valuesHold (h : valuesHold sys d = true) : valuesHold sys d' = true := by
  simp only [Validity.valuesHold, Bool.and_eq_true, List.all_eq_true] at h ⊢
  refine ⟨fun m' hm' => ?_, fun o' ho' => ?_⟩
  · obtain ⟨m, hm, _, _, _, _, _, _, shown, shown'⟩ := rewrites.mention hm'
    rw [← shown'.supplied, shown.supplied]
    exact h.1 m hm
  · obtain ⟨o, ho, same, tt, unrolled, unrolled'⟩ := rewrites.operation ho'
    have declared : o'.variableDefs = o.variableDefs := by rw [same]
    have fits := h.2 o ho
    simp only [variablesFit, Bool.and_eq_true, List.all_eq_true, List.any_eq_true, declared,
      rewrites.usages ho ho' same unrolled unrolled'] at fits ⊢
    exact fits

theorem mergingHolds (h : mergingHolds sys d = true) : mergingHolds sys d' = true := by
  simp only [Validity.mergingHolds, List.all_eq_true] at h ⊢
  have transfer {parent : Option TypeDef} {ss ss' tt : List Selection}
      (hs : (parent, ss) ∈ selectionSets sys d)
      (unrolled : Unrolled (Document.fragments d) ss tt)
      (unrolled' : Unrolled (Document.fragments d') ss' tt) (small : nestingAll tt ≤ size d) :
      allAgree sys d' (fieldsIn sys d' parent ss') = true :=
    allAgree_of_merges rewrites.order'.founded unrolled'
      (merges_of_allAgree rewrites.order.founded unrolled small (h _ hs))
  rintro ⟨parent, ss'⟩ hs'
  rw [selectionSets, List.mem_append, List.mem_append] at hs'
  rcases hs' with (hs' | hs') | hs'
  · obtain ⟨o', ho', is⟩ := List.mem_map.1 hs'
    cases is
    obtain ⟨o, ho, same, tt, unrolled, unrolled'⟩ := rewrites.operation ho'
    refine transfer ?_ unrolled unrolled' (unrolled.nesting_le_size rewrites.order.founded ho)
    rw [same]
    exact List.mem_append_left _ (List.mem_append_left _ (List.mem_map.2 ⟨o, ho, rfl⟩))
  · obtain ⟨f', hf', is⟩ := List.mem_map.1 hs'
    cases is
    -- An operation leads to the fragment, and that bounds how deep its selections are nested.
    obtain ⟨f, hf, inlined⟩ := rewrites.fragments f' hf'
    obtain ⟨o', ho', k, hk, path⟩ := rewrites.order'.used f' hf'
    obtain ⟨o, ho, _, tt, unrolled, unrolled'⟩ := rewrites.operation ho'
    obtain ⟨uu, beneath', among⟩ := unrolled_reaches sys (rootOf sys o) unrolled' hk path
      (fragment?_of_mem rewrites.order'.unique hf')
    have small : nestingAll uu ≤ size d :=
      (nestingAll_le_of_mentioned fun m hm => nestingOne_le_of_mentioned (among m hm)).trans
        (unrolled.nesting_le_size rewrites.order.founded ho)
    refine transfer ?_ (inlined.selections.unrolled rewrites.inlinedFragments beneath') beneath'
      small
    rw [inlined.same]
    exact List.mem_append_left _ (List.mem_append_right _ (List.mem_map.2 ⟨f, hf, rfl⟩))
  · obtain ⟨m', hm', is⟩ := List.mem_filterMap.1 hs'
    obtain ⟨m, hm, o, ho, tt, unrolled, t, ht, shown, shown'⟩ := rewrites.mention hm'
    split at is
    · next label name args ds ss' field =>
      cases is
      obtain ⟨uu, field, beneath'⟩ := shown'.fields field
      obtain ⟨ss, field', beneath⟩ := shown.field_of field
      have nested := nestingOne_le_of_mentioned ht
      rw [field, nestingOne] at nested
      have small := unrolled.nesting_le_size rewrites.order.founded ho
      refine transfer (List.mem_append_right _ (List.mem_filterMap.2 ⟨m, hm, ?_⟩)) beneath beneath'
        (by omega)
      rw [field', ← shown'.field?, shown.field?]
    · cases is

end Rewrites

/-- The rule for the names of operations looks at nothing but their names. -/
theorem operationsNamed_iff : operationsNamed d = true
    ↔ areUnique (((operations d).map (·.name)).filterMap id) = true
      ∧ (((operations d).map (·.name)).length ≤ 1
        ∨ ∀ n ∈ (operations d).map (·.name), n.isSome) := by
  simp [operationsNamed, List.filterMap_map]

/-- A valid document is still valid when spreads were written out and the fragments that are then no
longer used are dropped. -/
theorem isValid_inlined (valid : d.isValid sys = true) (h : InlinedIn d d') :
    (dropUnused sys d').isValid sys = true := by
  have rewrites : Rewrites d (dropUnused sys d') := (isValid_inOrder valid).rewrites h
  simp only [Document.isValid, structureHolds, Bool.and_eq_true] at valid ⊢
  obtain ⟨⟨⟨⟨⟨⟨⟨⟨⟨⟨⟨executable, named⟩, _⟩, _⟩, _⟩, _⟩, conditions⟩, spreads⟩, nesting⟩, fields⟩,
    values⟩, merging⟩ := valid
  obtain ⟨unique, known, used, acyclic⟩ := (inOrder_iff sys).1 rewrites.order'
  refine ⟨⟨⟨⟨⟨⟨⟨⟨⟨⟨⟨?_, ?_⟩, unique⟩, known⟩, used⟩, acyclic⟩, ?_⟩, ?_⟩, ?_⟩, ?_⟩, ?_⟩, ?_⟩
  · simp only [isExecutable, List.all_eq_true] at executable ⊢
    intro x' hx'
    obtain ⟨x, hx, related⟩ := related_mem h (List.mem_filter.1 hx').1
    have allowed := executable x hx
    cases related with
    | operation => rfl
    | fragment => rfl
    | types => cases allowed
  · rw [operationsNamed_iff] at named ⊢
    rwa [related_map (f := (·.name)) (g := (·.name)) rewrites.operations
      fun o o' inlined => by rw [inlined.same]]
  · exact rewrites.conditionsHold conditions
  · exact rewrites.spreadsFit spreads
  · exact rewrites.nestingHolds nesting
  · exact rewrites.fieldsHold fields
  · exact rewrites.valuesHold values
  · exact rewrites.mergingHolds merging

end

end EntityGraph.Validity
