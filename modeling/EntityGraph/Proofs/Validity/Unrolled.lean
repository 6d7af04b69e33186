import EntityGraph.Proofs.Document.Inlined
import EntityGraph.Proofs.Validity.Reach

/-!
# Rules and spreads written out

The rules look at every selection of a document in its place, those of fragments included. In a
document whose spreads are in order, these are the selections that operations consist of when all
spreads are written out, except that a spread appears as what it is written out to. No rule for
single selections distinguishes the two; and those rules that open fragments, with bounds that come
from the document, say of its selections what they say of those written out.
-/

namespace EntityGraph.Validity

open Document Interface

/-- A selection in its place, and the same one with all spreads written out. -/
structure Shown (fs : List Fragment) (m t : Mention) : Prop where
  parent : t.parent = m.parent
  selection : Unrolled fs [m.selection] [t.selection]

section

variable {sys : TypeSystem} {fs : List Fragment}

/-! ## Places -/

theorem mem_mentionsAll_field {parent : Option TypeDef} {label : Option String} {name : String}
    {args : List Argument} {ds : List Document.Directive} {tt ss : List Selection} {m : Mention} :
    m ∈ mentionsAll sys parent (.field label name args ds tt :: ss)
      ↔ m = ⟨parent, .field label name args ds tt⟩
        ∨ m ∈ mentionsAll sys (beneath sys (fieldOf parent name)) tt
        ∨ m ∈ mentionsAll sys parent ss := by
  simp [mentionsAll, mentions]

theorem mem_mentionsAll_spread {parent : Option TypeDef} {name : String}
    {ds : List Document.Directive} {ss : List Selection} {m : Mention} :
    m ∈ mentionsAll sys parent (.spread name ds :: ss)
      ↔ m = ⟨parent, .spread name ds⟩ ∨ m ∈ mentionsAll sys parent ss := by
  simp [mentionsAll, mentions]

theorem mem_mentionsAll_inline {parent : Option TypeDef} {onType : Option String}
    {ds : List Document.Directive} {tt ss : List Selection} {m : Mention} :
    m ∈ mentionsAll sys parent (.inline onType ds tt :: ss)
      ↔ m = ⟨parent, .inline onType ds tt⟩ ∨ m ∈ mentionsAll sys (under sys parent onType) tt
        ∨ m ∈ mentionsAll sys parent ss := by
  simp [mentionsAll, mentions]

/-- Every selection is shown where the spreads are written out. -/
theorem unrolled_shows {ss tt : List Selection} (h : Unrolled fs ss tt) {parent : Option TypeDef}
    {m : Mention} (hm : m ∈ mentionsAll sys parent ss) :
    ∃ t ∈ mentionsAll sys parent tt, Shown fs m t := by
  induction h generalizing parent with
  | nil => cases hm
  | field beneath rest ihb ih =>
    simp only [mem_mentionsAll_field] at hm ⊢
    rcases hm with rfl | hm | hm
    · exact ⟨_, .inl rfl, rfl, .field beneath .nil⟩
    · obtain ⟨t, ht, shown⟩ := ihb hm
      exact ⟨t, .inr (.inl ht), shown⟩
    · obtain ⟨t, ht, shown⟩ := ih hm
      exact ⟨t, .inr (.inr ht), shown⟩
  | inline beneath rest ihb ih =>
    simp only [mem_mentionsAll_inline] at hm ⊢
    rcases hm with rfl | hm | hm
    · exact ⟨_, .inl rfl, rfl, .inline beneath .nil⟩
    · obtain ⟨t, ht, shown⟩ := ihb hm
      exact ⟨t, .inr (.inl ht), shown⟩
    · obtain ⟨t, ht, shown⟩ := ih hm
      exact ⟨t, .inr (.inr ht), shown⟩
  | spread found beneath rest _ ih =>
    simp only [mem_mentionsAll_spread, mem_mentionsAll_inline] at hm ⊢
    rcases hm with rfl | hm
    · exact ⟨_, .inl rfl, rfl, .spread found beneath .nil⟩
    · obtain ⟨t, ht, shown⟩ := ih hm
      exact ⟨t, .inr (.inr ht), shown⟩

/-- Where spreads are written out, the selections of a fragment that is opened are shown. -/
theorem unrolled_enters {ss tt : List Selection} (h : Unrolled fs ss tt)
    {parent : Option TypeDef} {n : String} (hn : n ∈ spreads ss) {f : Fragment}
    (found : fragment? fs n = some f) : ∃ uu, Unrolled fs f.selections uu
      ∧ ∀ m ∈ mentionsAll sys (sys.object? f.onType) uu, m ∈ mentionsAll sys parent tt := by
  induction h generalizing parent with
  | nil => cases hn
  | field _ _ ihb ih =>
    simp only [mem_mentionsAll_field]
    rcases List.mem_append.1 (spreads_field .. ▸ hn) with hn | hn
    · obtain ⟨uu, unrolled, among⟩ := ihb hn
      exact ⟨uu, unrolled, fun m hm => .inr (.inl (among m hm))⟩
    · obtain ⟨uu, unrolled, among⟩ := ih hn
      exact ⟨uu, unrolled, fun m hm => .inr (.inr (among m hm))⟩
  | inline _ _ ihb ih =>
    simp only [mem_mentionsAll_inline]
    rcases List.mem_append.1 (spreads_inline .. ▸ hn) with hn | hn
    · obtain ⟨uu, unrolled, among⟩ := ihb hn
      exact ⟨uu, unrolled, fun m hm => .inr (.inl (among m hm))⟩
    · obtain ⟨uu, unrolled, among⟩ := ih hn
      exact ⟨uu, unrolled, fun m hm => .inr (.inr (among m hm))⟩
  | spread found' beneath _ _ ih =>
    simp only [mem_mentionsAll_inline]
    rcases List.mem_cons.1 (spreads_spread .. ▸ hn) with rfl | hn
    · cases found.symm.trans found'
      exact ⟨_, beneath, fun m hm => .inr (.inl hm)⟩
    · obtain ⟨uu, unrolled, among⟩ := ih hn
      exact ⟨uu, unrolled, fun m hm => .inr (.inr (among m hm))⟩

/-- Where spreads are written out, the selections of all fragments that are reached are shown. -/
theorem unrolled_reaches (sys : TypeSystem) (parent : Option TypeDef) {ss tt : List Selection}
    (h : Unrolled fs ss tt) {k n : String} (hk : k ∈ spreads ss)
    (path : Relation.ReflTransGen (Contains fs) k n) {f : Fragment}
    (found : fragment? fs n = some f) : ∃ uu, Unrolled fs f.selections uu
      ∧ ∀ m ∈ mentionsAll sys (sys.object? f.onType) uu, m ∈ mentionsAll sys parent tt := by
  induction path generalizing f with
  | refl => exact unrolled_enters h hk found
  | tail _ contains ih =>
    obtain ⟨g, there, opens⟩ := contains
    obtain ⟨uu, unrolled, among⟩ := ih there
    obtain ⟨vv, unrolled', among'⟩ := unrolled_enters unrolled opens found
    exact ⟨vv, unrolled', fun m hm => among m (among' m hm)⟩

/-- Nothing else is shown where spreads are written out. -/
theorem unrolled_shown {ss tt : List Selection} (h : Unrolled fs ss tt) {parent : Option TypeDef}
    {t : Mention} (ht : t ∈ mentionsAll sys parent tt) :
    ∃ m, Shown fs m t ∧ (m ∈ mentionsAll sys parent ss ∨ ∃ k ∈ spreads ss, ∃ n f,
      Relation.ReflTransGen (Contains fs) k n ∧ fragment? fs n = some f
        ∧ m ∈ inFragment sys f) := by
  induction h generalizing parent with
  | nil => cases ht
  | field beneath rest ihb ih =>
    simp only [mem_mentionsAll_field, spreads_field, List.mem_append] at ht ⊢
    rcases ht with rfl | ht | ht
    · refine ⟨_, ?_, .inl (.inl rfl)⟩
      exact ⟨rfl, .field beneath .nil⟩
    · obtain ⟨m, shown, hm | ⟨k, hk, led⟩⟩ := ihb ht
      · exact ⟨m, shown, .inl (.inr (.inl hm))⟩
      · exact ⟨m, shown, .inr ⟨k, .inl hk, led⟩⟩
    · obtain ⟨m, shown, hm | ⟨k, hk, led⟩⟩ := ih ht
      · exact ⟨m, shown, .inl (.inr (.inr hm))⟩
      · exact ⟨m, shown, .inr ⟨k, .inr hk, led⟩⟩
  | inline beneath rest ihb ih =>
    simp only [mem_mentionsAll_inline, spreads_inline, List.mem_append] at ht ⊢
    rcases ht with rfl | ht | ht
    · refine ⟨_, ?_, .inl (.inl rfl)⟩
      exact ⟨rfl, .inline beneath .nil⟩
    · obtain ⟨m, shown, hm | ⟨k, hk, led⟩⟩ := ihb ht
      · exact ⟨m, shown, .inl (.inr (.inl hm))⟩
      · exact ⟨m, shown, .inr ⟨k, .inl hk, led⟩⟩
    · obtain ⟨m, shown, hm | ⟨k, hk, led⟩⟩ := ih ht
      · exact ⟨m, shown, .inl (.inr (.inr hm))⟩
      · exact ⟨m, shown, .inr ⟨k, .inr hk, led⟩⟩
  | @spread name ds f _ _ _ found beneath rest ihb ih =>
    simp only [mem_mentionsAll_inline, mem_mentionsAll_spread, spreads_spread, List.mem_cons]
      at ht ⊢
    rcases ht with rfl | ht | ht
    · refine ⟨_, ?_, .inl (.inl rfl)⟩
      exact ⟨rfl, .spread found beneath .nil⟩
    · obtain ⟨m, shown, hm | ⟨k, hk, n, g, path, found', hm⟩⟩ := ihb ht
      · exact ⟨m, shown, .inr ⟨name, .inl rfl, name, f, .refl, found, hm⟩⟩
      · exact ⟨m, shown, .inr ⟨name, .inl rfl, n, g, .head ⟨f, found, hk⟩ path, found', hm⟩⟩
    · obtain ⟨m, shown, hm | ⟨k, hk, led⟩⟩ := ih ht
      · exact ⟨m, shown, .inl (.inr hm)⟩
      · exact ⟨m, shown, .inr ⟨k, .inr hk, led⟩⟩

/-! ## Selections of operations -/

variable {d : Document}

/-- All selections of an operation and its fragments. -/
def range (sys : TypeSystem) (d : Document) (o : Operation) : List Mention :=
  inOperation sys o ++ (fragmentsOf sys d o).flatMap fun n =>
    ((fragment? (fragments d) n).map (inFragment sys)).getD []

theorem mem_range (order : InOrder d) {o : Operation} (ho : o ∈ operations d) {m : Mention} :
    m ∈ range sys d o ↔ m ∈ inOperation sys o ∨ ∃ k ∈ spreads o.selections, ∃ n f,
      Relation.ReflTransGen (Contains (fragments d)) k n ∧ fragment? (fragments d) n = some f
        ∧ m ∈ inFragment sys f := by
  have looked (n : String) : m ∈ ((fragment? (fragments d) n).map (inFragment sys)).getD []
      ↔ ∃ f, fragment? (fragments d) n = some f ∧ m ∈ inFragment sys f := by
    cases fragment? (fragments d) n <;> simp
  rw [range, List.mem_append, List.mem_flatMap]
  simp only [looked, mem_fragmentsOf order.toResolved ho]
  grind

/-- A selection is one of a document if it is one of an operation or its fragments. -/
theorem mem_inDocument (order : InOrder d) {m : Mention} :
    m ∈ inDocument sys d ↔ ∃ o ∈ operations d, m ∈ range sys d o := by
  rw [inDocument, List.mem_append, List.mem_flatMap, List.mem_flatMap]
  constructor
  · rintro (⟨o, ho, hm⟩ | ⟨f, hf, hm⟩)
    · exact ⟨o, ho, (mem_range order ho).2 (.inl hm)⟩
    · obtain ⟨o, ho, k, hk, path⟩ := order.used f hf
      refine ⟨o, ho, (mem_range order ho).2 (.inr ⟨k, hk, f.name, f, path, ?_, hm⟩)⟩
      exact fragment?_of_mem order.unique hf
  · rintro ⟨o, ho, hm⟩
    rcases (mem_range order ho).1 hm with hm | ⟨_, _, _, f, _, found, hm⟩
    · exact .inl ⟨o, ho, hm⟩
    · exact .inr ⟨f, fragment?_mem found, hm⟩

theorem range_shows (order : InOrder d) {o : Operation} (ho : o ∈ operations d)
    {tt : List Selection} (h : Unrolled (fragments d) o.selections tt) {m : Mention}
    (hm : m ∈ range sys d o) :
    ∃ t ∈ mentionsAll sys (rootOf sys o) tt, Shown (fragments d) m t := by
  rcases (mem_range order ho).1 hm with hm | ⟨k, hk, n, f, path, found, hm⟩
  · exact unrolled_shows h hm
  · obtain ⟨uu, unrolled, among⟩ := unrolled_reaches sys (rootOf sys o) h hk path found
    obtain ⟨t, ht, shown⟩ := unrolled_shows unrolled hm
    exact ⟨t, among t ht, shown⟩

theorem range_shown (order : InOrder d) {o : Operation} (ho : o ∈ operations d)
    {tt : List Selection} (h : Unrolled (fragments d) o.selections tt) {t : Mention}
    (ht : t ∈ mentionsAll sys (rootOf sys o) tt) :
    ∃ m ∈ range sys d o, Shown (fragments d) m t := by
  obtain ⟨m, shown, origin⟩ := unrolled_shown h ht
  exact ⟨m, (mem_range order ho).2 origin, shown⟩

/-! ## Rules for single selections -/

theorem Shown.field? {m t : Mention} (h : Shown fs m t) : t.field? = m.field? := by
  obtain ⟨_, _⟩ := m
  obtain ⟨_, _⟩ := t
  obtain ⟨rfl, selection⟩ := h
  cases selection <;> rfl

theorem Shown.directives {m t : Mention} (h : Shown fs m t) : t.directives = m.directives := by
  obtain ⟨_, _⟩ := m
  obtain ⟨_, _⟩ := t
  obtain ⟨rfl, selection⟩ := h
  cases selection <;> rfl

theorem Shown.supplied {m t : Mention} (h : Shown fs m t) : t.supplied = m.supplied := by
  obtain ⟨_, _⟩ := m
  obtain ⟨_, _⟩ := t
  obtain ⟨rfl, selection⟩ := h
  cases selection <;> rfl

theorem Shown.selectionFits {m t : Mention} (h : Shown fs m t) :
    selectionFits sys t = selectionFits sys m := by
  have fits : fieldFits sys t = fieldFits sys m := by
    obtain ⟨parent, _⟩ := m
    obtain ⟨_, _⟩ := t
    obtain ⟨rfl, selection⟩ := h
    cases selection with
    | field beneath =>
      simp only [fieldFits, beneath.isEmpty]
      rfl
    | inline => rfl
    | spread => rfl
  rw [Validity.selectionFits, Validity.selectionFits, fits, h.directives]

/-- Whatever a spread is written out to can stand where the spread can. -/
theorem Shown.opensProperly {m t : Mention} (h : Shown (fragments d) m t) :
    opensProperly sys [] t = opensProperly sys d m := by
  obtain ⟨_, _⟩ := m
  obtain ⟨_, _⟩ := t
  obtain ⟨rfl, selection⟩ := h
  cases selection with
  | field => rfl
  | inline => rfl
  | spread found => simp [Validity.opensProperly, found]

theorem anyTooDeep_unrolled (founded : Founded (fragments d)) {ss tt : List Selection}
    (h : Unrolled (fragments d) ss tt) (depth : Nat) :
    anyTooDeep (fragmentTooDeep d (fragments d).length) depth ss
      = anyTooDeep (fragmentTooDeep [] 0) depth tt := by
  refine Unrolled.bounded (P := fun n ss tt => ∀ depth,
    anyTooDeep (fragmentTooDeep d n) depth ss = anyTooDeep (fragmentTooDeep [] 0) depth tt)
    ?nil ?field ?inline ?spread founded h depth
  case nil => exact fun _ _ => rfl
  case field =>
    intro n label name args ds _ _ _ _ _ ihb ih depth
    simp only [anyTooDeep, nestsTooDeep, ihb, ih]
  case inline =>
    intro n onType ds _ _ _ _ ihb ih depth
    simp only [anyTooDeep, nestsTooDeep, ihb, ih]
  case spread =>
    intro n name ds f _ _ _ found ihb ih depth
    have opened : fragmentTooDeep d (n + 1) depth name
        = anyTooDeep (fragmentTooDeep d n) depth f.selections := by
      rw [fragmentTooDeep]
      simp only [found]
    simp only [anyTooDeep, nestsTooDeep, opened, ihb, ih]

theorem Shown.asksTooDeep (founded : Founded (fragments d)) {m t : Mention}
    (h : Shown (fragments d) m t) : asksTooDeep [] t = asksTooDeep d m := by
  obtain ⟨_, _⟩ := m
  obtain ⟨_, _⟩ := t
  obtain ⟨rfl, selection⟩ := h
  cases selection with
  | field beneath =>
    simp only [Validity.asksTooDeep, nestsTooDeep, anyTooDeep_unrolled founded beneath]
    rfl
  | inline => rfl
  | spread => rfl

theorem Shown.inline {m t : Mention} (h : Shown fs m t) {onType : Option String}
    {ds : List Document.Directive} {ss : List Selection}
    (is : m.selection = .inline onType ds ss) : ∃ ss', t.selection = .inline onType ds ss' := by
  obtain ⟨_, _⟩ := m
  obtain ⟨_, _⟩ := t
  cases is
  cases h.selection
  exact ⟨_, rfl⟩

theorem Shown.fields {m t : Mention} (h : Shown fs m t) {label : Option String} {name : String}
    {args : List Argument} {ds : List Document.Directive} {ss : List Selection}
    (is : m.selection = .field label name args ds ss) :
    ∃ ss', t.selection = .field label name args ds ss' ∧ Unrolled fs ss ss' := by
  obtain ⟨_, _⟩ := m
  obtain ⟨_, _⟩ := t
  cases is
  cases h.selection with
  | field beneath => exact ⟨_, rfl, beneath⟩

theorem Shown.field_of {m t : Mention} (h : Shown fs m t) {label : Option String} {name : String}
    {args : List Argument} {ds : List Document.Directive} {ss' : List Selection}
    (is : t.selection = .field label name args ds ss') :
    ∃ ss, m.selection = .field label name args ds ss ∧ Unrolled fs ss ss' := by
  obtain ⟨_, _⟩ := m
  obtain ⟨_, _⟩ := t
  cases is
  cases h.selection with
  | field beneath => exact ⟨_, rfl, beneath⟩

/-- What selections and fragments are conditional on is what selections are conditional on when all
spreads are written out. -/
theorem Shown.condition {m t : Mention} (h : Shown (fragments d) m t)
    (hm : m ∈ inDocument sys d) {onType : String} {ds : List Document.Directive}
    {ss : List Selection} (is : t.selection = .inline (some onType) ds ss) :
    onType ∈ conditions sys d := by
  obtain ⟨_, _⟩ := m
  obtain ⟨_, _⟩ := t
  obtain ⟨rfl, selection⟩ := h
  cases is
  rw [conditions, List.mem_append]
  cases selection with
  | inline => exact .inl (List.mem_filterMap.2 ⟨_, hm, rfl⟩)
  | spread found => exact .inr (List.mem_map.2 ⟨_, fragment?_mem found, rfl⟩)

/-! ## How deep selections are nested -/

theorem depthOf_field (known : String → Nat) (label : Option String) (name : String)
    (args : List Argument) (ds : List Document.Directive) (ss : List Selection) :
    depthOf known (.field label name args ds ss)
      = if ss.isEmpty then 0 else depthOfAll known ss + 1 := by
  cases ss <;> rfl

theorem lookup_fragmentDepths (unique : (fs.map (·.name)).Nodup) {name : String} {f : Fragment}
    (found : fragment? fs name = some f) (n : Nat) :
    (fragmentDepths fs (n + 1)).lookup name = some
      (depthOfAll (fun name => ((fragmentDepths fs n).lookup name).getD 0) f.selections + 1) := by
  have nodup : ((fragmentDepths fs (n + 1)).map (·.1)).Nodup := by
    rw [fragmentDepths, List.map_map]
    exact unique
  rw [lookup_eq_some_iff nodup, fragmentDepths, List.mem_map]
  exact ⟨f, fragment?_mem found, by rw [fragment?_name found]⟩

/-- Selections are nested as deep as those that their spreads are written out to. -/
theorem depthOfAll_unrolled (founded : Founded fs) (unique : (fs.map (·.name)).Nodup)
    {ss tt : List Selection} (h : Unrolled fs ss tt) :
    depthOfAll (fun name => ((fragmentDepths fs fs.length).lookup name).getD 0) ss
      = depthOfAll (fun _ => 0) tt := by
  refine Unrolled.bounded (P := fun n ss tt =>
    depthOfAll (fun name => ((fragmentDepths fs n).lookup name).getD 0) ss
      = depthOfAll (fun _ => 0) tt) ?nil ?field ?inline ?spread founded h
  case nil => exact fun _ => rfl
  case field =>
    intro n label name args ds _ _ _ _ beneath ihb ih
    simp only [depthOfAll, depthOf_field, beneath.isEmpty, ihb, ih]
  case inline =>
    intro n onType ds _ _ _ _ ihb ih
    simp only [depthOfAll, depthOf, ihb, ih]
  case spread =>
    intro n _ ds _ _ _ _ found ihb ih
    simp only [depthOfAll, depthOf, lookup_fragmentDepths unique found, Option.getD_some, ihb, ih]

/-! ## How deep fields are nested -/

theorem nestingOne_le_of_mentioned {parent : Option TypeDef} {tt : List Selection} {t : Mention}
    (ht : t ∈ mentionsAll sys parent tt) : nestingOne t.selection ≤ nestingAll tt := by
  induction tt using selections_induct generalizing parent with
  | nil => cases ht
  | field label name args ds uu tt ihb ih =>
    rw [nestingAll, nestingOne]
    rcases mem_mentionsAll_field.1 ht with rfl | ht | ht
    · rw [nestingOne]
      omega
    · have := ihb ht
      omega
    · have := ih ht
      omega
  | spread name ds tt ih =>
    rw [nestingAll]
    rcases mem_mentionsAll_spread.1 ht with rfl | ht
    · exact Nat.le_max_left _ _
    · exact (ih ht).trans (Nat.le_max_right _ _)
  | inline onType ds uu tt ihb ih =>
    rw [nestingAll, nestingOne]
    rcases mem_mentionsAll_inline.1 ht with rfl | ht | ht
    · rw [nestingOne]
      omega
    · exact (ihb ht).trans (Nat.le_max_left _ _)
    · exact (ih ht).trans (Nat.le_max_right _ _)

theorem nestingAll_le_of_mentioned {parent : Option TypeDef} {uu : List Selection} {n : Nat}
    (each : ∀ m ∈ mentionsAll sys parent uu, nestingOne m.selection ≤ n) : nestingAll uu ≤ n := by
  induction uu with
  | nil => exact Nat.zero_le _
  | cons s ss ih =>
    simp only [mentionsAll, List.mem_append, or_imp, forall_and] at each
    rw [nestingAll]
    refine Nat.max_le.2 ⟨each.1 ⟨parent, s⟩ ?_, ih each.2⟩
    cases s <;> simp [mentions]

end

end EntityGraph.Validity

/-!
## Merged fields and spreads written out

Whether fields can be merged is asked for every two of them with one output name, and then for the
fields beneath them. The fields of a selection set are the same ones once all spreads are written
out, and then the question can be asked without a bound, as nothing is nested endlessly. The bound
that comes from a document is not met, so that the rule says of each of its selection sets that the
question is answered with yes however far it is followed.
-/

namespace EntityGraph.Validity

open Document Interface

/-- A field in its place, and the same one with all spreads beneath it written out. -/
structure Open.Unrolled (fs : List Fragment) (x y : Open) : Prop where
  parent : y.parent = x.parent
  field : y.field = x.field
  node : FieldNode.Unrolled fs x.node y.node

section

variable {sys : TypeSystem} {fs : List Fragment} {d : Document}

/-- The fields of selections without spreads. -/
def fieldsOf (sys : TypeSystem) (parent : Option TypeDef) (tt : List Selection) : List Open :=
  openAll sys (fun _ => []) parent tt

theorem fieldsIn_unrolled (founded : Founded (fragments d)) {ss tt : List Selection}
    (h : Unrolled (fragments d) ss tt) (parent : Option TypeDef) :
    List.Forall₂ (Open.Unrolled (fragments d)) (fieldsIn sys d parent ss)
      (fieldsOf sys parent tt) := by
  unfold fieldsIn fieldsOf
  refine Unrolled.bounded (P := fun n ss tt => ∀ parent,
    List.Forall₂ (Open.Unrolled (fragments d)) (openAll sys (openFragment sys d n) parent ss)
      (openAll sys (fun _ => []) parent tt)) ?nil ?field ?inline ?spread founded h parent
  case nil => exact fun _ _ => .nil
  case field =>
    intro n label name args ds _ _ _ _ beneath _ ih parent
    exact .cons ⟨rfl, rfl, rfl, rfl, rfl, beneath⟩ (ih parent)
  case inline =>
    intro n onType ds _ _ _ _ ihb ih parent
    exact List.rel_append (ihb _) (ih parent)
  case spread =>
    intro n name ds f _ _ _ found ihb ih parent
    have opened : openFragment sys d (n + 1) name
        = openAll sys (openFragment sys d n) (sys.object? f.onType) f.selections := by
      rw [openFragment]
      simp only [found]
    simp only [openAll, openOne, opened]
    exact List.rel_append (ihb _) (ih parent)

theorem fieldsOf_nesting {parent : Option TypeDef} {tt : List Selection} {x : Open}
    (hx : x ∈ fieldsOf sys parent tt) : nestingAll x.node.selections < nestingAll tt := by
  induction tt using selections_induct generalizing parent with
  | nil => cases hx
  | field label name args ds uu tt _ ih =>
    rw [nestingAll, nestingOne]
    rcases List.mem_append.1 hx with hx | hx
    · cases List.mem_singleton.1 hx
      dsimp only
      omega
    · have rest := ih hx
      omega
  | spread name ds tt ih =>
    rw [nestingAll]
    exact Nat.lt_of_lt_of_le (ih hx) (Nat.le_max_right _ _)
  | inline onType ds uu tt ihb ih =>
    rw [nestingAll, nestingOne]
    rcases List.mem_append.1 hx with hx | hx
    · exact Nat.lt_of_lt_of_le (ihb hx) (Nat.le_max_left _ _)
    · exact Nat.lt_of_lt_of_le (ih hx) (Nat.le_max_right _ _)

section

variable {α β : Type} {Q : α → β → Prop} {as : List α} {bs : List β}

theorem forall_related {p : α → Prop} {q : β → Prop} (h : List.Forall₂ Q as bs)
    (each : ∀ a b, Q a b → (p a ↔ q b)) : (∀ a ∈ as, p a) ↔ ∀ b ∈ bs, q b := by
  induction h with
  | nil => simp
  | cons first _ ih => rw [List.forall_mem_cons, List.forall_mem_cons, each _ _ first, ih]

theorem all_related {p : α → Bool} {q : β → Bool} (h : List.Forall₂ Q as bs)
    (each : ∀ a b, Q a b → p a = q b) : as.all p = bs.all q := by
  rw [Bool.eq_iff_iff, List.all_eq_true, List.all_eq_true]
  exact forall_related h fun a b related => by rw [each a b related]

theorem pairwise_related {R : α → α → Prop} {S : β → β → Prop} (h : List.Forall₂ Q as bs)
    (each : ∀ a b a' b', Q a b → Q a' b' → (R a a' ↔ S b b')) :
    as.Pairwise R ↔ bs.Pairwise S := by
  induction h with
  | nil => simp
  | cons first rest ih =>
    rw [List.pairwise_cons, List.pairwise_cons, ih]
    exact and_congr_left fun _ => forall_related rest fun a' b' => each _ _ a' b' first

end

/-- With the same bound, fields agree exactly if they do once all spreads are written out. -/
theorem agree_unrolled (founded : Founded (fragments d)) (n : Nat) (apart : Bool)
    {a b a' b' : Open} (ha : Open.Unrolled (fragments d) a a')
    (hb : Open.Unrolled (fragments d) b b') :
    agree sys d n apart a b = agree sys [] n apart a' b' := by
  induction n generalizing apart a b a' b' with
  | zero => rfl
  | succ n ih =>
    have beneath {x x' : Open} (hx : Open.Unrolled (fragments d) x x') :
        List.Forall₂ (Open.Unrolled (fragments d)) (fieldsIn sys d (x.target sys) x.node.selections)
          (fieldsIn sys [] (x'.target sys) x'.node.selections) := by
      rw [Open.target, Open.target, hx.field]
      exact fieldsIn_unrolled founded hx.node.selections _
    rw [agree, agree, ha.parent, hb.parent, ha.field, hb.field, ha.node.name, hb.node.name,
      ha.node.args, hb.node.args]
    refine congrArg (_ && ·) (all_related (beneath ha) fun x x' hx => ?_)
    refine all_related (beneath hb) fun y y' hy => ?_
    rw [hx.node.output, hy.node.output, ih _ hx hy]

/-- Fields that agree with a bound above their nesting agree with every bound. -/
theorem agree_any (n m : Nat) (apart : Bool) {a b : Open}
    (small : nestingAll a.node.selections < n) (h : agree sys [] n apart a b = true) :
    agree sys [] m apart a b = true := by
  induction n generalizing m apart a b with
  | zero => exact absurd small (Nat.not_lt_zero _)
  | succ n ih =>
    cases m with
    | zero => rfl
    | succ m =>
      simp only [agree, Bool.and_eq_true, List.all_eq_true, Bool.or_eq_true] at h ⊢
      refine ⟨h.1, fun x hx y hy => (h.2 x hx y hy).imp id fun beneath => ?_⟩
      have lower : nestingAll x.node.selections < nestingAll a.node.selections :=
        fieldsOf_nesting hx
      exact ih m _ (by omega) beneath

/-- Whether every two fields with one output name agree, however far that is followed. -/
def Merges (sys : TypeSystem) (parent : Option TypeDef) (tt : List Selection) : Prop :=
  (fieldsOf sys parent tt).Pairwise fun a b =>
    a.node.output = b.node.output → ∀ n, agree sys [] n false a b = true

theorem allAgree_iff {xs : List Open} : allAgree sys d xs = true ↔ xs.Pairwise fun a b =>
    a.node.output = b.node.output → agree sys d (size d + 1) false a b = true := by
  induction xs with
  | nil => simp [allAgree]
  | cons x xs ih =>
    rw [allAgree, Bool.and_eq_true, List.pairwise_cons, ih, List.all_eq_true]
    refine and_congr_left fun _ => forall₂_congr fun y _ => ?_
    rw [Bool.or_eq_true, bne_iff_ne, imp_iff_not_or]

theorem allAgree_unrolled (founded : Founded (fragments d)) {ss tt : List Selection}
    (h : Unrolled (fragments d) ss tt) (parent : Option TypeDef) :
    allAgree sys d (fieldsIn sys d parent ss) = true ↔ (fieldsOf sys parent tt).Pairwise fun a b =>
      a.node.output = b.node.output → agree sys [] (size d + 1) false a b = true := by
  rw [allAgree_iff]
  refine pairwise_related (fieldsIn_unrolled founded h parent) fun x x' y y' shown other => ?_
  rw [shown.node.output, other.node.output, agree_unrolled founded _ _ shown other]

/-- If the rule holds of a selection set, its fields agree however far that is followed. -/
theorem merges_of_allAgree (founded : Founded (fragments d)) {ss tt : List Selection}
    (h : Unrolled (fragments d) ss tt) (small : nestingAll tt ≤ size d) {parent : Option TypeDef}
    (holds : allAgree sys d (fieldsIn sys d parent ss) = true) : Merges sys parent tt := by
  refine ((allAgree_unrolled founded h parent).1 holds).imp_of_mem fun hx _ agrees same n => ?_
  have nested := fieldsOf_nesting hx
  exact agree_any _ n _ (by omega) (agrees same)

theorem allAgree_of_merges (founded : Founded (fragments d)) {ss tt : List Selection}
    (h : Unrolled (fragments d) ss tt) {parent : Option TypeDef} (merges : Merges sys parent tt) :
    allAgree sys d (fieldsIn sys d parent ss) = true :=
  (allAgree_unrolled founded h parent).2 (merges.imp fun agrees same => agrees same _)

end

end EntityGraph.Validity
