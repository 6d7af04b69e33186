import EntityGraph.Proofs.Interface.Reordered
import EntityGraph.Proofs.Schema.Arranged
import EntityGraph.Proofs.Schema.Redrawn

/-!
# Completing a schema in another order

Two schemas with the same declarations, made in different orders, can both be completed or neither
can, and then they have the same declarations again. Each stage of completing is followed here in the
two schemas side by side: it succeeds in the second one if it does in the first one.
-/

namespace EntityGraph

/-! ## Counterparts that go on -/

theorem Grown.shape_types {w u : World} (h : Grown w u) (shape : ArgShape) :
    shape.types u = shape.types w := by
  have typed (v : Value) : v.typeIn u = v.typeIn w := by
    cases v with
    | object r =>
      unfold Value.typeIn World.object
      rw [h.memory, h.objects]
    | _ => rfl
  unfold ArgShape.types ArgShape.hasFields ArgShape.hintedHost
  simp only [typed, h.classes]

/-- Whether an entry has no arguments, or arguments of the same types in all worlds. -/
def Entry.IsPlain (x : Entry) : Prop :=
  ∀ shape, x.shape? = some shape → ∀ w w' : World, shape.types w = shape.types w'

theorem Schema.Reordered.later {s s' u u' : Schema} (same : s.Reordered s') (types : Orderly u.types)
    (types' : Orderly u'.types) (entries : ∀ x, u.Has x ↔ u'.Has x) (scalars : u.scalars = s.scalars)
    (scalars' : u'.scalars = s'.scalars) : u.Reordered u' := by
  refine ⟨types, types', entries, ?_, fun host => ?_⟩
  · rw [scalars, scalars']
    exact same.scalars
  · rw [scalars, scalars']
    exact same.translators host

/-- Counterparts stay counterparts while the same is added to both. -/
theorem World.Counterparts.later {w w' u u' : World} (same : w.Counterparts w') (grown : Grown w u)
    (grown' : Grown w' u') (types : Orderly u.schema.types) (types' : Orderly u'.schema.types)
    (entries : ∀ x, u.schema.Has x ↔ u'.schema.Has x)
    (plain : ∀ x, u.schema.Has x → w.schema.Has x ∨ x.IsPlain) : u.Counterparts u' := by
  refine ⟨same.schema.later types types' entries grown.scalars grown'.scalars,
    fun x shape has is => ?_⟩
  rcases plain x has with has | plain
  · rw [grown.shape_types, grown'.shape_types]
    exact same.shapes x shape has is
  · exact plain shape is u u'

/-! ## Making schemas describe themselves -/

namespace Schema

variable {s s' : Schema} (same : s.Reordered s')

include same

theorem Reordered.has : s.Has = s'.Has := funext fun x => propext (same.entries x)

theorem Reordered.descriptionEntries : s.descriptionEntries = s'.descriptionEntries := by
  have types (host : HostType) (name description : String) :
      s.typeEntries host name description = s'.typeEntries host name description := by
    unfold typeEntries newType
    rw [same.isScalarHost]
  unfold Schema.descriptionEntries
  simp only [types]

theorem Reordered.nameEntries (x : Entry) :
    x ∈ TypeDecl.nameEntries s.types ↔ x ∈ TypeDecl.nameEntries s'.types := by
  have onward {s s' : Schema} (same : s.Reordered s') (h : x ∈ TypeDecl.nameEntries s.types) :
      x ∈ TypeDecl.nameEntries s'.types := by
    obtain ⟨t, ht, rfl⟩ := List.mem_map.1 h
    obtain ⟨ht, unnamed⟩ := List.mem_filter.1 ht
    obtain ⟨entity, free⟩ := Bool.and_eq_true_iff.1 unnamed
    obtain ⟨t', ht', twin⟩ := same.twin ht
    refine List.mem_map.2 ⟨t', List.mem_filter.2 ⟨ht', Bool.and_eq_true_iff.2 ⟨?_, ?_⟩⟩, ?_⟩
    · rw [← twin.isScalar]
      exact entity
    · rw [twin.unnamed (Option.isNone_iff_eq_none.1 free)]
      rfl
    · rw [twin.host]
  exact ⟨onward same, onward same.symm⟩

end Schema

theorem Schema.descriptionEntries_plain {s : Schema} {x : Entry} (h : x ∈ s.descriptionEntries) :
    x.IsPlain := by
  have ofType {host : HostType} {name description : String}
      (h : x ∈ s.typeEntries host name description) : x.IsPlain := by
    rcases List.mem_cons.1 h with rfl | h
    · exact nofun
    · obtain ⟨r, _, rfl⟩ := List.mem_map.1 h
      rintro shape ⟨⟩ w w'
      rfl
  unfold Schema.descriptionEntries at h
  simp only [List.mem_append, List.mem_cons, List.not_mem_nil, or_false] at h
  rcases h with h | h | h | rfl | rfl
  · exact ofType h
  · exact ofType h
  · exact ofType h
  · rintro shape ⟨⟩ w w'
    rfl
  · rintro shape ⟨⟩ w w'
    rfl

theorem TypeDecl.nameEntries_plain {ts : List TypeDecl} {x : Entry} (h : x ∈ nameEntries ts) :
    x.IsPlain := by
  obtain ⟨t, _, rfl⟩ := List.mem_map.1 h
  rintro shape ⟨⟩ w w'
  rfl

namespace World.Counterparts

variable {w w' u u' : World} (same : w.Counterparts w')

include same

/-- Counterparts can both be made to describe themselves, and are counterparts then. -/
theorem addDescription (ready : Ready w) (ready' : Ready w')
    (allowed : w.schema.allowsReserved = true) (allowed' : w'.schema.allowsReserved = true)
    (h : runOn Schema.addDescription w = (.ok (), u)) :
    ∃ u', runOn Schema.addDescription w' = (.ok (), u') ∧ u.Counterparts u' := by
  obtain ⟨taken, v, first, named⟩ := Schema.addDescription_entered ready allowed h
  rw [same.schema.has, same.schema.descriptionEntries] at taken
  obtain ⟨u', h'⟩ := Schema.addDescription_succeeds ready' allowed' taken
  obtain ⟨_, v', first', named'⟩ := Schema.addDescription_entered ready' allowed' h'
  have middle : v.schema.Reordered v'.schema := by
    refine same.schema.later first.ready.types first'.ready.types (fun x => ?_) first.scalars
      first'.scalars
    rw [first.entries, first'.entries, same.schema.entries, same.schema.descriptionEntries]
  have grown {w u : World} (h : runOn Schema.addDescription w = (.ok (), u)) : Grown w u :=
    Settles.grown (Adds.settles (keeps_run (Schema.keeps_addDescription Schema.adds_describing) h))
  refine ⟨u', h', same.later (grown h) (grown h') named.ready.types named'.ready.types
    (fun x => ?_) fun x has => ?_⟩
  · rw [named.entries, named'.entries, middle.entries, middle.nameEntries]
  · rcases (named.entries x).1 has with has | own
    · exact ((first.entries x).1 has).imp_right Schema.descriptionEntries_plain
    · exact .inr (TypeDecl.nameEntries_plain own)

end World.Counterparts

/-! ## Checks and projections -/

theorem TypeDecl.Twin.valid {t t' : TypeDecl} (twin : t.Twin t') (valid : t.validate = .ok ()) :
    t'.validate = .ok () := by
  have none : t'.fields.isEmpty = t.fields.isEmpty := by
    rw [Bool.eq_iff_iff, List.isEmpty_iff, List.isEmpty_iff]
    exact ⟨twin.symm.empty, twin.empty⟩
  unfold TypeDecl.validate at *
  rw [← twin.isScalar, none]
  split at valid
  · cases valid
  · next plain =>
    rw [if_neg plain]
    split at valid
    · cases valid
    · next full => rw [if_neg full]

theorem Schema.Reordered.valid {s s' : Schema} (same : s.Reordered s') (valid : s.IsValid) :
    s'.IsValid := by
  intro t' ht'
  obtain ⟨t, ht, twin⟩ := same.symm.twin ht'
  exact twin.symm.valid (valid t ht)

theorem Arranges.ready {w u : World} (steps : Arranges w u) (ready : Ready w) : Ready u :=
  ⟨(Settles.grown (Arranges.settles steps)).completed.trans ready.isOpen,
    Settles.orderly (Arranges.settles steps) ready.types⟩

namespace World.Counterparts

variable {w w' u u' : World} (same : w.Counterparts w')

include same

theorem arranged (types : Orderly w.schema.types) (types' : Orderly w'.schema.types)
    (steps : Arranges w u) (steps' : Arranges w' u') : u.Counterparts u' := by
  refine same.later (Settles.grown (Arranges.settles steps)) (Settles.grown (Arranges.settles steps'))
    (Settles.orderly (Arranges.settles steps) types)
    (Settles.orderly (Arranges.settles steps') types') (fun x => ?_) fun x has => ?_
  · rw [Arranges.has steps, Arranges.has steps', same.schema.entries]
  · exact .inl ((Arranges.has steps x).1 has)

theorem withSchema {f g : Schema → Schema} (types : (f w.schema).types = w.schema.types)
    (types' : (g w'.schema).types = w'.schema.types)
    (queries : (f w.schema).queries = w.schema.queries)
    (queries' : (g w'.schema).queries = w'.schema.queries)
    (scalars : (f w.schema).scalars = w.schema.scalars)
    (scalars' : (g w'.schema).scalars = w'.schema.scalars) :
    (w.withSchema f).Counterparts (w'.withSchema g) := by
  have has (x : Entry) : (w.withSchema f).schema.Has x ↔ w.schema.Has x :=
    Schema.has_congr types queries x
  refine ⟨same.schema.later ?_ ?_ (fun x => ?_) scalars scalars', fun x shape hx is => ?_⟩
  · exact types ▸ same.schema.types
  · exact types' ▸ same.schema.types'
  · exact (has x).trans ((same.schema.entries x).trans (Schema.has_congr types' queries' x).symm)
  · rw [Schema.types_withSchema, Schema.types_withSchema]
    exact same.shapes x shape ((has x).1 hx) is

theorem isScalar {shape : ArgShape} (types : shape.types w = shape.types w')
    (h : shape.IsScalar w) : shape.IsScalar w' := by
  obtain ⟨each, found, scalar⟩ := h
  refine ⟨each, types ▸ found, fun a ha => ?_⟩
  rw [← (same.schema.typeOf a.2).isScalar]
  exact scalar a ha

theorem scalarArguments (h : Schema.ScalarArguments w) : Schema.ScalarArguments w' := by
  constructor
  · intro t' ht' f' hf'
    obtain ⟨t, ht, twin⟩ := same.symm.schema.twin ht'
    obtain ⟨f, hf, outline⟩ := twin.field hf'
    have shape : f'.outline.shape = f.outline.shape := by rw [outline]
    rw [show f'.shape = f.shape from shape]
    exact same.isScalar (same.fieldShape ht hf) (h.fields t ht f hf)
  · intro q' hq'
    obtain ⟨q, hq, outline⟩ := same.symm.schema.query hq'
    have shape : q'.outline.shape = q.outline.shape := by rw [outline]
    rw [show q'.shape = q.shape from shape]
    exact same.isScalar (same.queryShape hq) (h.queries q hq)

/-! ## Completing -/

/-- If everything that was added to a schema can be arranged, so it can in its counterpart. -/
theorem arrange (ready : Ready w) (ready' : Ready w') (valid : w'.schema.IsValid)
    (h : runOn (do
      Schema.settleProjections
      Schema.checkAllArguments
      Schema.setUpInterface) w = (.ok (), u)) :
    ∃ u', runOn (do
      Schema.settleProjections
      Schema.checkAllArguments
      Schema.setUpInterface) w' = (.ok (), u') ∧ u.Counterparts u' := by
  have arranged : Arranges w u := keeps_run Schema.keeps_arranging h
  obtain ⟨_, v₁, settled, h⟩ := bind_eq_ok h
  obtain ⟨_, v₂, checked, h⟩ := bind_eq_ok h
  obtain ⟨_, sys, drawn, _⟩ := Schema.setUpInterface_ok h
  have steps₁ : Arranges w v₁ := keeps_run Schema.keeps_settleProjections settled
  have steps₂ : Arranges v₁ v₂ :=
    keeps_run (Schema.keeps_checkAllArguments Schema.arranges_adHoc) checked
  obtain ⟨v₁', settled'⟩ := Schema.settleProjections_succeeds valid
  have steps₁' : Arranges w' v₁' := keeps_run Schema.keeps_settleProjections settled'
  have same₁ : v₁.Counterparts v₁' := same.arranged ready.types ready'.types steps₁ steps₁'
  obtain ⟨v₂', checked'⟩ :=
    Schema.checkAllArguments_succeeds (same₁.scalarArguments (Schema.checkAllArguments_ok checked))
  have steps₂' : Arranges v₁' v₂' :=
    keeps_run (Schema.keeps_checkAllArguments Schema.arranges_adHoc) checked'
  have same₂ : v₂.Counterparts v₂' := same₁.arranged (Arranges.ready steps₁ ready).types
    (Arranges.ready steps₁' ready').types steps₂ steps₂'
  obtain ⟨sys', drawn'⟩ := Interface.ofSchema_counterpart same₂ drawn
  obtain ⟨u', run⟩ := Schema.setUpInterface_succeeds drawn'
  have all : runOn (do
      Schema.settleProjections
      Schema.checkAllArguments
      Schema.setUpInterface) w' = (.ok (), u') := by
    rw [runOn_bind_ok settled', runOn_bind_ok checked', run]
  exact ⟨u', all, same.arranged ready.types ready'.types arranged
    (keeps_run Schema.keeps_arranging all)⟩

theorem settle (ready : Ready w) (ready' : Ready w') (unprojected : Unprojected w)
    (h : runOn Schema.settle w = (.ok (), u)) :
    ∃ u', runOn Schema.settle w' = (.ok (), u') ∧ u.Counterparts u' := by
  obtain ⟨checked, v, described, arranged⟩ := Schema.settle_stages h
  -- The types are valid before they are described, and queries are there.
  have valid : w.schema.IsValid := fun t ht => Schema.validateTypes_ok checked ht (unprojected t ht)
  have queried : w.schema.queries ≠ [] := by
    intro none
    unfold Schema.settle at h
    rw [runOn_bind_ok (Schema.runOn_schema w), none] at h
    cases h
  have queried' : w'.schema.queries.isEmpty = false := by
    obtain ⟨q, hq⟩ := List.exists_mem_of_ne_nil _ queried
    obtain ⟨q', hq', _⟩ := same.schema.query hq
    rw [List.isEmpty_eq_false_iff]
    exact List.ne_nil_of_mem hq'
  -- The descriptions succeed side by side, and leave behind counterparts with valid types.
  have allowed : (w.allowing true).Counterparts (w'.allowing true) :=
    same.withSchema rfl rfl rfl rfl rfl rfl
  obtain ⟨v', described', same'⟩ := allowed.addDescription ⟨ready.isOpen, ready.types⟩
    ⟨ready'.isOpen, ready'.types⟩ rfl rfl described
  have forbidden : (v.allowing false).Counterparts (v'.allowing false) :=
    same'.withSchema rfl rfl rfl rfl rfl rfl
  have valid' : v.schema.IsValid := by
    obtain ⟨_, _, settled, _⟩ := bind_eq_ok arranged
    have adds : Adds (w.allowing true) v :=
      keeps_run (Schema.keeps_addDescription Schema.adds_describing) described
    have none : Unprojected v := Adds.unprojected adds unprojected
    have named : Schema.AllNamed v := Schema.addDescription_ok described ready.types
    exact Schema.settleProjections_valid (w := v.allowing false) settled named none
  have readied {w v : World} (ready : Ready w)
      (h : runOn Schema.addDescription (w.allowing true) = (.ok (), v)) :
      Ready (v.allowing false) := by
    obtain ⟨_, _, _, named⟩ :=
      Schema.addDescription_entered (w := w.allowing true) ⟨ready.isOpen, ready.types⟩ rfl h
    exact ⟨named.ready.isOpen, named.ready.types⟩
  obtain ⟨u', arranged', final⟩ := forbidden.arrange (readied ready described)
    (readied ready' described') (same'.schema.valid valid') arranged
  refine ⟨u', ?_, final⟩
  unfold Schema.settle
  rw [runOn_bind_ok (Schema.runOn_schema w'), if_neg (by simp [queried']),
    runOn_bind_ok (Schema.runOn_validateTypes (same.schema.valid valid)),
    runOn_bind_ok (Schema.runOn_addIntrospection described')]
  exact arranged'

/-- Of counterparts, one can be completed if the other one can, and they are counterparts then. -/
theorem complete (ready : Ready w) (ready' : Ready w') (unprojected : Unprojected w)
    (h : runOn Schema.complete w = (.ok (), u)) :
    ∃ u', runOn Schema.complete w' = (.ok (), u') ∧ u.Counterparts u' := by
  obtain ⟨_, v, settled, rfl⟩ := Schema.complete_ok h
  obtain ⟨v', settled', same'⟩ := same.settle ready ready' unprojected settled
  exact ⟨v'.closed, Schema.runOn_complete_ok ready'.isOpen settled',
    same'.withSchema rfl rfl rfl rfl rfl rfl⟩

end World.Counterparts

end EntityGraph
