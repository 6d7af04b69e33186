import EntityGraph.Proofs.Interface.Sound
import EntityGraph.Proofs.Schema.Outline

/-!
# The type system of a reordered schema

Types are placed in an order that depends on the order of the declarations, but whether all of them
can be placed does not: every field is drawn in the same way, the same types are reached, and so the
same names have to be different.
-/

namespace EntityGraph.Interface

/-! ## Drawing -/

section

variable {w w' : World} (same : w.Counterparts w')

theorem scalarOf_congr {t t' : TypeDecl} (twin : t.Twin t') : scalarOf t = scalarOf t' := by
  have description : t.description = t'.description :=
    show t.head.description = t'.head.description by rw [twin.head]
  unfold scalarOf
  rw [twin.name, description]

include same

theorem mem_objectTypes {t : TypeDecl} (ht : t ∈ objectTypes w.schema) :
    ∃ t' ∈ objectTypes w'.schema, t.Twin t' := by
  obtain ⟨ht, is⟩ := List.mem_filter.1 ht
  obtain ⟨t', ht', twin⟩ := same.schema.twin ht
  refine ⟨t', List.mem_filter.2 ⟨ht', ?_⟩, twin⟩
  rw [← twin.isScalar, ← twin.name]
  exact is

theorem any_objectTypes (name : String) :
    (objectTypes w.schema).any (·.name == name) = (objectTypes w'.schema).any (·.name == name) := by
  have onward {v v' : World} (same : v.Counterparts v')
      (h : (objectTypes v.schema).any (·.name == name) = true) :
      (objectTypes v'.schema).any (·.name == name) = true := by
    obtain ⟨t, ht, is⟩ := List.any_eq_true.1 h
    obtain ⟨t', ht', twin⟩ := mem_objectTypes same ht
    exact List.any_eq_true.2 ⟨t', ht', by rw [← twin.name]; exact is⟩
  exact Bool.eq_iff_iff.2 ⟨onward same, onward same.symm⟩

theorem reachedBy_congr (host : HostType) :
    reachedBy w.schema (w.schema.typeOf host) = reachedBy w'.schema (w'.schema.typeOf host) := by
  have twin := same.schema.typeOf host
  unfold reachedBy
  rw [scalarOf_congr twin, twin.isScalar, twin.name, any_objectTypes same]

theorem drawField_congr {shape : ArgShape} (shapes : shape.types w = shape.types w')
    (name description : String) (host : HostType) (isList : Bool) :
    drawField w name description host isList shape
      = drawField w' name description host isList shape := by
  have argument (n : Value) (h : HostType) :
      drawArgument w.schema n h = drawArgument w'.schema n h := by
    unfold drawArgument
    rw [scalarOf_congr (same.schema.typeOf h)]
  unfold drawField
  simp only [reachedBy_congr same, shapes, argument]

end

/-! ## Placing -/

section

variable {fieldsOf : Reached → Outcome (List Draw)} {P : Reached → Prop}

theorem place_ok (spreads : Spreads fieldsOf P) (drawn : ∀ r, P r → ∃ ds, fieldsOf r = .ok ds)
    {waiting : List Reached} {depth : Nat} {done : Placed} {r : Reached} (given : P r) :
    ∃ after, place fieldsOf waiting depth done r = .ok after := by
  induction depth generalizing done r with
  | zero => exact ⟨done, rfl⟩
  | succ depth ih =>
    unfold place
    split
    · exact ⟨done, rfl⟩
    · obtain ⟨ds, made⟩ := drawn r given
      rw [made]
      exact outcome_foldlM_ok fun x hx _ => ih (spreads r ds given made x hx)

theorem placeAll_ok (spreads : Spreads fieldsOf P) (drawn : ∀ r, P r → ∃ ds, fieldsOf r = .ok ds)
    {depth : Nat} {given : List Reached} {done : Placed} (all : ∀ r ∈ given, P r) :
    ∃ after, placeAll fieldsOf depth given done = .ok after := by
  induction given generalizing done with
  | nil => exact ⟨done, rfl⟩
  | cons r rest ih =>
    rw [List.forall_mem_cons] at all
    have here : ∃ middle, place fieldsOf rest depth done r = .ok middle :=
      place_ok spreads drawn all.1
    obtain ⟨middle, first⟩ := here
    obtain ⟨after, later⟩ : ∃ after, placeAll fieldsOf depth rest middle = .ok after := ih all.2
    exact ⟨after, by unfold placeAll; rw [first]; exact later⟩

/-- Whether no type is placed twice. -/
def Placed.Apart (done : Placed) : Prop := done.Pairwise fun e e' => e.1.same e'.1 = false

theorem place_apart {waiting : List Reached} {depth : Nat} {done after : Placed} {r : Reached}
    (apart : done.Apart) (h : place fieldsOf waiting depth done r = .ok after) : after.Apart := by
  induction depth generalizing done r after with
  | zero =>
    cases h
    exact apart
  | succ depth ih =>
    unfold place at h
    split at h
    · cases h
      exact apart
    · next unknown =>
      obtain ⟨drawn, _, h⟩ := outcome_bind_ok h
      refine outcome_foldlM_keeps (P := Placed.Apart) (fun x _ _ _ before placed => ih before placed)
        ?_ h
      refine List.pairwise_append.2 ⟨apart, List.pairwise_singleton _ _, fun e he e' he' => ?_⟩
      rw [List.mem_singleton.1 he']
      have fresh : done.holds r = false := by
        simp only [Bool.or_eq_true, not_or] at unknown
        simpa using unknown.1
      simpa using List.any_eq_false.1 fresh e he

theorem placeAll_apart {depth : Nat} {given : List Reached} {done after : Placed}
    (apart : done.Apart) (h : placeAll fieldsOf depth given done = .ok after) : after.Apart :=
  placeAll_keeps (P := fun _ done => done.Apart) (fun _ _ _ _ => place_apart) apart h

end

theorem Reached.same_symm {r s : Reached} (h : r.same s = true) : s.same r = true := by
  cases r <;> cases s <;> simp_all [same]

/-- Types that are placed once each have different names if each of them is placed elsewhere, where
names are different. -/
theorem Placed.Apart.names {placed placed' : Placed} (apart : placed'.Apart)
    (distinct : (placed.map (·.1.name)).Nodup)
    (known : ∀ e ∈ placed', Accounted placed [] e.1) : (placed'.map (·.1.name)).Nodup := by
  rw [List.Nodup, List.pairwise_map]
  refine apart.imp_of_mem fun {a b} ha hb other names => ?_
  obtain ⟨x, hx, like⟩ := (known a ha).placed
  obtain ⟨y, hy, like'⟩ := (known b hb).placed
  have one : x = y := List.inj_on_of_nodup_map distinct hx hy <|
    (Reached.name_of_same like).trans (names.trans (Reached.name_of_same like').symm)
  subst one
  rw [Reached.same_trans (Reached.same_symm like) like'] at other
  cases other

theorem checkDistinct_of_nodup {ns : List String} (h : ns.Nodup) : checkDistinct ns = .ok () := by
  induction ns with
  | nil => rfl
  | cons n ns ih =>
    rw [List.nodup_cons] at h
    unfold checkDistinct
    rw [if_neg (by simpa using h.1)]
    exact ih h.2

/-! ## The whole type system -/

section

variable {w w' : World} {sys : TypeSystem} {queries queries' : List Draw} {placed : Placed}
  {met : List Reached}

/-- The root type and the scalars of the language are placed. -/
theorem Origin.language_accounted (o : Origin w sys queries placed met) :
    ∀ r ∈ Reached.root :: languageScalars, Accounted placed [] r := by
  obtain ⟨entries, _, places⟩ := o.places
  unfold placeTypes at places
  obtain ⟨middle, given, places⟩ := outcome_bind_ok places
  have scalars := drawsOf_scalar w queries
  have within := drawsOf_within o.drawn
  exact (foldlM_complete scalars within
    (placeAll_complete scalars within (complete_given _) given) places).2.2

variable (same : w.Counterparts w')

include same

/-- What a field is drawn as has nothing to do with its function. -/
theorem drawField_outline {t : TypeDecl} {f f' : FieldDecl} (ht : t ∈ w.schema.types)
    (hf : f ∈ t.fields) (outline : f.outline = f'.outline) :
    drawField w f.name f.description f.host f.isList f.shape
      = drawField w' f'.name f'.description f'.host f'.isList f'.shape := by
  rw [drawField_congr same (same.fieldShape ht hf)]
  show drawField w' f.outline.name f.outline.description f.outline.host f.outline.isList
    f.outline.shape = _
  rw [outline]
  rfl

theorem drawQuery_outline {q q' : QueryDecl} (hq : q ∈ w.schema.queries)
    (outline : q.outline = q'.outline) :
    drawField w q.name q.description q.host q.isList q.shape
      = drawField w' q'.name q'.description q'.host q'.isList q'.shape := by
  rw [drawField_congr same (same.queryShape hq)]
  show drawField w' q.outline.name q.outline.description q.outline.host q.outline.isList
    q.outline.shape = _
  rw [outline]
  rfl

/-- The fields of twin types are drawn alike. -/
theorem drawFields_twin {t t' : TypeDecl} (ht : t ∈ w.schema.types) (twin : t.Twin t')
    {ds : List Draw} (drawn : drawFields w t = .ok ds) :
    ∃ ds', drawFields w' t' = .ok ds' ∧ ds' ⊆ ds := by
  have each : ∀ f' ∈ t'.fields.filter (!isReserved ·.name), ∃ f ∈ t.fields.filter (!isReserved ·.name),
      drawField w f.name f.description f.host f.isList f.shape
        = drawField w' f'.name f'.description f'.host f'.isList f'.shape := by
    intro f' hf'
    obtain ⟨hf', free⟩ := List.mem_filter.1 hf'
    obtain ⟨f, hf, outline⟩ := twin.symm.field hf'
    have named : f.name = f'.name := show f.outline.name = f'.outline.name by rw [outline]
    exact ⟨f, List.mem_filter.2 ⟨hf, by rw [named]; exact free⟩, drawField_outline same ht hf outline⟩
  obtain ⟨ds', made, sub⟩ := outcome_mapM_subset (drawFields_ok drawn) each
  refine ⟨ds', ?_, sub⟩
  obtain ⟨_, _, checked⟩ := outcome_bind_ok drawn
  obtain ⟨_, names, is⟩ := outcome_bind_ok checked
  cases is
  rw [outcome_forM_ok] at names
  have named : ds'.forM (fun d => checkName d.field.name) = .ok () :=
    outcome_forM_ok.2 fun d hd => names d (sub hd)
  unfold drawFields
  dsimp only
  rw [made]
  show (ds'.forM (fun d => checkName d.field.name) >>= fun _ => (.ok ds' : Outcome _)) = _
  rw [named]
  rfl

theorem drawQueries_ok (drawn : drawQueries w = .ok queries) :
    ∃ queries', drawQueries w' = .ok queries' ∧ queries' ⊆ queries := by
  refine outcome_mapM_subset drawn fun q' hq' => ?_
  obtain ⟨hq', free⟩ := List.mem_filter.1 hq'
  obtain ⟨q, hq, outline⟩ := same.schema.symm.query hq'
  have named : q.name = q'.name := show q.outline.name = q'.outline.name by rw [outline]
  exact ⟨q, List.mem_filter.2 ⟨hq, by rw [named]; exact free⟩, drawQuery_outline same hq outline⟩

/-- Whether a type is one that can be reached in a schema. -/
def IsReachable (s : Schema) (r : Reached) : Prop :=
  r.isScalar = true ∨ r = .root ∨ ∃ t ∈ objectTypes s, r = .object t.name

omit same in
theorem spreads_reachable (drawn : drawQueries w = .ok queries) :
    Spreads (drawsOf w queries) (IsReachable w.schema) := by
  intro r ds _ made x hx
  rcases drawsOf_within drawn r ds made x hx with scalar | ⟨n, hn, rfl⟩
  · exact .inl scalar
  · obtain ⟨t, ht, rfl⟩ := List.mem_map.1 hn
    exact .inr (.inr ⟨t, ht, rfl⟩)

/-- Every type that can be reached is drawn, and leads to nothing but what is placed in the other
order. -/
theorem Origin.redrawn (o : Origin w sys queries placed met) (sub : queries' ⊆ queries) {r : Reached}
    (reachable : IsReachable w'.schema r) :
    ∃ ds', drawsOf w' queries' r = .ok ds'
      ∧ ∀ x ∈ ds'.flatMap (·.reaches), Accounted placed [] x := by
  rcases reachable with scalar | rfl | ⟨t', ht', rfl⟩
  · exact ⟨[], drawsOf_scalar w' queries' r scalar, by simp⟩
  · have made := o.complete.consistent.drawn _ o.rootPlaced
    obtain ⟨_, names, _⟩ := outcome_bind_ok made
    rw [outcome_forM_ok] at names
    have named : queries'.forM (fun d => checkName d.field.name) = .ok () :=
      outcome_forM_ok.2 fun d hd => names d (sub hd)
    refine ⟨queries', ?_, fun x hx => ?_⟩
    · show (queries'.forM _ >>= _) = _
      rw [named]
      rfl
    · obtain ⟨d, hd, reaches⟩ := List.mem_flatMap.1 hx
      exact o.complete.consistent.closed _ o.rootPlaced x (List.mem_flatMap.2 ⟨d, sub hd, reaches⟩)
  · obtain ⟨u', found⟩ := Option.isSome_iff_exists.1 <|
      List.find?_isSome (p := fun t => t.name == t'.name).2 ⟨t', ht', beq_self_eq_true _⟩
    obtain ⟨u, hu, twin⟩ := mem_objectTypes same.symm (List.mem_of_find?_eq_some found)
    obtain ⟨drawn, member, made⟩ := o.objectPlaced same.schema.types hu
    obtain ⟨ds', made', fewer⟩ := drawFields_twin same (List.mem_of_mem_filter hu) twin.symm made
    refine ⟨ds', ?_, fun x hx => ?_⟩
    · show drawFields w' (((objectTypes w'.schema).find? (·.name == t'.name)).getD default) = _
      rw [found]
      exact made'
    · obtain ⟨d, hd, reaches⟩ := List.mem_flatMap.1 hx
      exact o.complete.consistent.closed _ member x (List.mem_flatMap.2 ⟨d, fewer hd, reaches⟩)

/-- What is reached in one order is placed in the other. -/
theorem Origin.spreads (o : Origin w sys queries placed met) (drawn' : drawQueries w' = .ok queries')
    (sub : queries' ⊆ queries) :
    Spreads (drawsOf w' queries') fun r => IsReachable w'.schema r ∧ Accounted placed [] r := by
  rintro r ds ⟨reachable, _⟩ made x hx
  obtain ⟨ds', made', accounted⟩ := o.redrawn same sub reachable
  obtain rfl : ds = ds' := Except.ok.inj (made.symm.trans made')
  exact ⟨spreads_reachable drawn' r ds reachable made x hx, accounted x hx⟩

/-- The types that are given in one order are placed in the other. -/
theorem Origin.given (o : Origin w sys queries placed met) (sub : queries' ⊆ queries)
    {entries' : List Reached}
    (made : w'.schema.scalars.mapM (fun e => scalarOf e.typeDecl) = .ok entries') :
    ∀ r ∈ givenTypes w'.schema ((queries'.flatMap (·.reaches)).filter (·.isScalar) ++ entries'),
      IsReachable w'.schema r ∧ Accounted placed [] r := by
  intro r hr
  rcases List.mem_append.1 hr with hr | hr
  · rcases List.mem_append.1 (mem_distinctReached hr) with hr | hr
    · obtain ⟨hr, scalar⟩ := List.mem_filter.1 hr
      obtain ⟨d, hd, reaches⟩ := List.mem_flatMap.1 hr
      exact ⟨.inl scalar, o.complete.consistent.closed _ o.rootPlaced r
        (List.mem_flatMap.2 ⟨d, sub hd, reaches⟩)⟩
    · obtain ⟨e, he, scalar⟩ := outcome_mapM_mem made hr
      obtain ⟨d, rfl⟩ := scalarOf_ok scalar
      obtain ⟨d', known⟩ := o.scalars_accounted (same.schema.scalars.mem_iff.2 he)
      exact ⟨.inl rfl, known.same (by simp [Reached.same])⟩
  · obtain ⟨t', ht', rfl⟩ := List.mem_map.1 hr
    obtain ⟨t, ht, twin⟩ := mem_objectTypes same.symm ht'
    refine ⟨.inr (.inr ⟨t', ht', rfl⟩), ?_⟩
    rw [twin.name]
    exact o.complete.all t.name (List.mem_map_of_mem ht)

/-- Types are placed under different names in one order if they are in the other. -/
theorem Origin.replaced (o : Origin w sys queries placed met)
    (drawn' : drawQueries w' = .ok queries') (sub : queries' ⊆ queries) {entries' : List Reached}
    (made : w'.schema.scalars.mapM (fun e => scalarOf e.typeDecl) = .ok entries') :
    ∃ placed', placeTypes w' queries'
        ((queries'.flatMap (·.reaches)).filter (·.isScalar) ++ entries') = .ok placed'
      ∧ (placed'.map (·.1.name)).Nodup := by
  have spreads := o.spreads same drawn' sub
  have drawn (r : Reached) (h : IsReachable w'.schema r ∧ Accounted placed [] r) :
      ∃ ds, drawsOf w' queries' r = .ok ds :=
    (o.redrawn same sub h.1).imp fun _ h => h.1
  have given := o.given same sub made
  have language : ∀ r ∈ Reached.root :: languageScalars,
      IsReachable w'.schema r ∧ Accounted placed [] r := by
    refine fun r hr => ⟨?_, o.language_accounted r hr⟩
    unfold languageScalars at hr
    simp only [List.mem_cons, List.not_mem_nil, or_false] at hr
    rcases hr with rfl | rfl | rfl
    · exact .inr (.inl rfl)
    · exact .inl rfl
    · exact .inl rfl
  unfold placeTypes
  dsimp only
  generalize (objectTypes w'.schema).length + 2 = depth
  generalize givenTypes w'.schema _ = rs at given
  obtain ⟨middle, first⟩ : ∃ middle, placeAll (drawsOf w' queries') depth rs [] = .ok middle :=
    placeAll_ok spreads drawn given
  obtain ⟨placed', rest⟩ : ∃ placed', (Reached.root :: languageScalars).foldlM
      (place (drawsOf w' queries') [] depth) middle = .ok placed' :=
    outcome_foldlM_ok fun r hr _ => place_ok spreads drawn (language r hr)
  refine ⟨placed', by rw [first]; exact rest, ?_⟩
  have apart : placed'.Apart := by
    refine outcome_foldlM_keeps (P := Placed.Apart) ?_ (placeAll_apart List.Pairwise.nil first) rest
    exact fun _ _ _ _ before placed => place_apart before placed
  have known : ∀ e ∈ placed', IsReachable w'.schema e.1 ∧ Accounted placed [] e.1 := by
    have before := placeAll_all spreads given (fun _ he => absurd he List.not_mem_nil) first
    refine outcome_foldlM_keeps (P := fun done => ∀ e ∈ done, IsReachable w'.schema e.1
      ∧ Accounted placed [] e.1) ?_ before rest
    exact fun r hr _ _ before placed => place_all spreads (language r hr) before placed
  exact apart.names o.distinct fun e he => (known e he).2

/-- The type system of a schema can be set up if it can be for the same declarations in another
order. -/
theorem ofSchema_counterpart (h : ofSchema w = .ok sys) : ∃ sys', ofSchema w' = .ok sys' := by
  obtain ⟨queries, placed, met, o⟩ := ofSchema_ok h
  obtain ⟨queries', drawn', sub⟩ := drawQueries_ok same o.drawn
  obtain ⟨entries, made, _⟩ := o.places
  have each : ∀ e' ∈ w'.schema.scalars, ∃ e ∈ w.schema.scalars,
      scalarOf e.typeDecl = scalarOf e'.typeDecl :=
    fun e he => ⟨e, same.schema.scalars.mem_iff.2 he, rfl⟩
  obtain ⟨entries', made', _⟩ := outcome_mapM_subset made each
  obtain ⟨placed', places, distinct⟩ := o.replaced same drawn' sub made'
  have names : (objectTypes w'.schema).forM (fun t => checkTypeName t.name) = .ok () := by
    obtain ⟨_, checked, _⟩ := outcome_bind_ok h
    rw [outcome_forM_ok] at checked ⊢
    intro t' ht'
    obtain ⟨t, ht, twin⟩ := mem_objectTypes same.symm ht'
    rw [twin.name]
    exact checked t ht
  unfold ofSchema
  dsimp only
  rw [names, drawn', made']
  show ∃ sys', ((placeTypes w' queries' _) >>= _) = _
  rw [places]
  show ∃ sys', ((checkDistinct _) >>= _) = _
  rw [checkDistinct_of_nodup distinct]
  exact ⟨_, rfl⟩

end

end EntityGraph.Interface
