import EntityGraph.Proofs.Document.Kept
import Mathlib.Logic.Relation
import Mathlib.Data.List.Nodup
import Mathlib.Data.Finset.Card

/-!
# Opening fragments in place

Collecting the fields of a selection set follows spreads through the fragments of the document, and
not through what is written. If no fragment contains itself, every fragment has a rank, which is
above the ranks of all fragments that it opens. Ranks are less than the number of fragments. So the
bound on how deep fragments are opened is never met, and what is collected is what the selection set
comes to if each spread is replaced by the selections of its fragment, over and over again.
-/

set_option linter.unusedSectionVars false

namespace EntityGraph.Document

/-! ## What stands inside selections -/

mutual

/-- A selection and all selections inside it. -/
def inside : Selection → List Selection
  | .field label name args ds ss => .field label name args ds ss :: insideAll ss
  | .spread name ds => [.spread name ds]
  | .inline onType ds ss => .inline onType ds ss :: insideAll ss

/-- Several selections and all selections inside them. -/
def insideAll : List Selection → List Selection
  | [] => []
  | s :: ss => inside s ++ insideAll ss

end

/-- The fragment that a selection opens. -/
def Selection.spread? : Selection → Option String
  | .spread name _ => some name
  | _ => none

/-- The fragments that selections open, however far inside. -/
def spreads (ss : List Selection) : List String := (insideAll ss).filterMap (·.spread?)

@[simp] theorem spreads_nil : spreads [] = [] := rfl

@[simp] theorem spreads_field (label : Option String) (name : String) (args : List Argument)
    (ds : List Directive) (tt ss : List Selection) :
    spreads (.field label name args ds tt :: ss) = spreads tt ++ spreads ss := by
  simp [spreads, insideAll, inside, Selection.spread?]

@[simp] theorem spreads_spread (name : String) (ds : List Directive) (ss : List Selection) :
    spreads (.spread name ds :: ss) = name :: spreads ss := by
  simp [spreads, insideAll, inside, Selection.spread?]

@[simp] theorem spreads_inline (onType : Option String) (ds : List Directive)
    (tt ss : List Selection) :
    spreads (.inline onType ds tt :: ss) = spreads tt ++ spreads ss := by
  simp [spreads, insideAll, inside, Selection.spread?]

section

variable {P : List Selection → Prop} (nil : P [])
  (field : ∀ label name args ds tt ss, P tt → P ss → P (.field label name args ds tt :: ss))
  (spread : ∀ name ds ss, P ss → P (.spread name ds :: ss))
  (inline : ∀ onType ds tt ss, P tt → P ss → P (.inline onType ds tt :: ss))

include nil field spread inline

mutual

theorem selection_induct (s : Selection) (ss : List Selection) (rest : P ss) : P (s :: ss) := by
  cases s with
  | field label name args ds tt =>
    exact field label name args ds tt ss (selections_induct tt) rest
  | spread name ds => exact spread name ds ss rest
  | inline onType ds tt => exact inline onType ds tt ss (selections_induct tt) rest

/-- What holds of lists of selections, shown along what is written. -/
@[elab_as_elim] theorem selections_induct (ss : List Selection) : P ss := by
  cases ss with
  | nil => exact nil
  | cons s ss => exact selection_induct s ss (selections_induct ss)

end

end

/-! ## Ranks of fragments -/

/-- Whether one fragment opens another one, however far inside. -/
def Contains (fs : List Fragment) (a b : String) : Prop :=
  ∃ f, fragment? fs a = some f ∧ b ∈ spreads f.selections

/-- Whether all fragments that selections open are there. -/
def Defined (fs : List Fragment) (ss : List Selection) : Prop :=
  ∀ n ∈ spreads ss, (fragment? fs n).isSome

/-- Whether all fragments that fragments open are there, and no fragment contains itself. -/
structure Founded (fs : List Fragment) : Prop where
  defined : ∀ n f, fragment? fs n = some f → Defined fs f.selections
  acyclic : ∀ n, ¬Relation.TransGen (Contains fs) n n

theorem fragment?_name {fs : List Fragment} {n : String} {f : Fragment}
    (h : fragment? fs n = some f) : f.name = n := by
  simpa using List.find?_some h

theorem fragment?_mem {fs : List Fragment} {n : String} {f : Fragment}
    (h : fragment? fs n = some f) : f ∈ fs :=
  List.mem_reverse.1 (List.mem_of_find?_eq_some h)

theorem mem_names {fs : List Fragment} {n : String} (h : (fragment? fs n).isSome) :
    n ∈ fs.map (·.name) := by
  obtain ⟨f, found⟩ := Option.isSome_iff_exists.1 h
  exact List.mem_map.2
    ⟨f, fragment?_mem found, fragment?_name found⟩

/-- Numbers for fragments that fall along every spread and are less than a bound. -/
structure Ranks (fs : List Fragment) (rank : String → Nat) (bound : Nat) : Prop where
  falls : ∀ a b, Contains fs a b → rank b < rank a
  below : ∀ n, (fragment? fs n).isSome → rank n < bound

open Classical in
/-- The rank of a fragment is the number of fragments that it contains. -/
theorem Founded.ranks {fs : List Fragment} (h : Founded fs) :
    ∃ rank, Ranks fs rank fs.length := by
  let names := (fs.map (·.name)).toFinset
  let reached (n : String) := names.filter fun m => Relation.TransGen (Contains fs) n m
  refine ⟨fun n => (reached n).card, fun a b contains => ?_, fun n defined => ?_⟩
  · refine Finset.card_lt_card (Finset.ssubset_iff_of_subset ?_ |>.2 ⟨b, ?_, ?_⟩)
    · intro m hm
      obtain ⟨known, further⟩ := Finset.mem_filter.1 hm
      exact Finset.mem_filter.2 ⟨known, .head contains further⟩
    · obtain ⟨f, found, opens⟩ := contains
      have known := mem_names (h.defined a f found b opens)
      exact Finset.mem_filter.2 ⟨List.mem_toFinset.2 known, .single ⟨f, found, opens⟩⟩
    · exact fun own => h.acyclic b (Finset.mem_filter.1 own).2
  · have own : reached n ⊂ names := by
      refine Finset.ssubset_iff_of_subset (Finset.filter_subset _ _) |>.2 ⟨n, ?_, ?_⟩
      · exact List.mem_toFinset.2 (mem_names defined)
      · exact fun own => h.acyclic n (Finset.mem_filter.1 own).2
    calc (reached n).card < names.card := Finset.card_lt_card own
      _ ≤ (fs.map (·.name)).length := List.toFinset_card_le _
      _ = fs.length := List.length_map _

/-! ## What selections come to -/

/-- A field that is reached, with the directives that are passed on the way to it, its own last. -/
abbrev Way := List (List Directive) × FieldNode

/-- A way that starts with one more selection. -/
def Way.after (ds : List Directive) (r : Way) : Way := (ds :: r.1, r.2)

/-- The fields that selections come to if every spread and every condition is replaced by its
selections, in order and as often as they are reached. -/
inductive Reaches (fs : List Fragment) : List Selection → List Way → Prop
  | nil : Reaches fs [] []
  | field {label : Option String} {name : String} {args : List Argument} {ds : List Directive}
      {tt ss : List Selection} {rs : List Way} (rest : Reaches fs ss rs) :
      Reaches fs (.field label name args ds tt :: ss) (([ds], ⟨label, name, args, tt⟩) :: rs)
  | inline {onType : Option String} {ds : List Directive} {tt ss : List Selection}
      {is rs : List Way} (beneath : Reaches fs tt is) (rest : Reaches fs ss rs) :
      Reaches fs (.inline onType ds tt :: ss) (is.map (·.after ds) ++ rs)
  | spread {name : String} {ds : List Directive} {f : Fragment} {ss : List Selection}
      {is rs : List Way} (found : fragment? fs name = some f) (beneath : Reaches fs f.selections is)
      (rest : Reaches fs ss rs) :
      Reaches fs (.spread name ds :: ss) (is.map (·.after ds) ++ rs)

open Classical in
/-- The fields that stay: those of which all directives on the way leave them in place. -/
noncomputable def staying (vars : Variables) (rs : List Way) : List FieldNode :=
  (rs.filter fun r => ∀ ds ∈ r.1, Stays vars ds).map (·.2)

/-- Whether the directives of selections can be read. -/
def Readable (vars : Variables) (ss : List Selection) : Prop :=
  ∀ s ∈ insideAll ss, ∃ b, isIncluded vars s.directives = .ok b

section

variable {fs : List Fragment} {vars : Variables}

theorem Reaches.unique {ss : List Selection} {rs rs' : List Way} (h : Reaches fs ss rs)
    (h' : Reaches fs ss rs') : rs = rs' := by
  induction h generalizing rs' with
  | nil =>
    cases h'
    rfl
  | field _ ih =>
    cases h' with
    | field rest => rw [ih rest]
  | inline _ _ ihb ih =>
    cases h' with
    | inline beneath rest => rw [ihb beneath, ih rest]
  | spread found _ _ ihb ih =>
    cases h' with
    | spread found' beneath rest =>
      cases found.symm.trans found'
      rw [ihb beneath, ih rest]

theorem staying_append (rs rs' : List Way) :
    staying vars (rs ++ rs') = staying vars rs ++ staying vars rs' := by
  simp [staying]

open Classical in
/-- What is passed on the way to several fields counts for each of them. -/
theorem staying_after {ds : List Directive} {b : Bool} (known : isIncluded vars ds = .ok b)
    (rs : List Way) :
    staying vars (rs.map (·.after ds)) = if b then staying vars rs else [] := by
  have own : Stays vars ds ↔ b = true := (isIncluded_ok known).2.symm
  unfold staying
  rw [List.filter_map, List.map_map]
  cases b with
  | true =>
    have same : ((fun r : Way => decide (∀ ds ∈ r.1, Stays vars ds)) ∘ Way.after ds)
        = fun r => decide (∀ ds ∈ r.1, Stays vars ds) := by
      funext r
      simp [Way.after, own]
    rw [same, if_pos rfl]
    rfl
  | false =>
    have none : ((fun r : Way => decide (∀ ds ∈ r.1, Stays vars ds)) ∘ Way.after ds)
        = fun _ => false := by
      funext r
      simp [Way.after, own]
    rw [none]
    simp

theorem readable_cons {s : Selection} {ss : List Selection} (h : Readable vars (s :: ss)) :
    (∃ b, isIncluded vars s.directives = .ok b) ∧ Readable vars ss := by
  constructor
  · refine h s ?_
    cases s <;> simp [insideAll, inside]
  · exact fun x hx => h x (by simp [insideAll, hx])

theorem readable_inline {onType : Option String} {ds : List Directive} {tt ss : List Selection}
    (h : Readable vars (.inline onType ds tt :: ss)) : Readable vars tt :=
  fun x hx => h x (by simp [insideAll, inside, hx])

/-! ## Collecting, one selection after the other -/

/-- What is collected behind directives. -/
def guarded (vars : Variables) (ds : List Directive) (x : Outcome (List FieldNode)) :
    Outcome (List FieldNode) := do
  if ← isIncluded vars ds then x else .ok []

theorem collectWithin_field (n : Nat) (label : Option String) (name : String)
    (args : List Argument) (ds : List Directive) (tt ss : List Selection) :
    collectWithin fs vars n (.field label name args ds tt :: ss) = (do
      let found ← guarded vars ds (.ok [⟨label, name, args, tt⟩])
      .ok (found ++ (← collectWithin fs vars n ss))) := by
  cases n <;> rfl

theorem collectWithin_inline (n : Nat) (onType : Option String) (ds : List Directive)
    (tt ss : List Selection) :
    collectWithin fs vars n (.inline onType ds tt :: ss) = (do
      let found ← guarded vars ds (collectWithin fs vars n tt)
      .ok (found ++ (← collectWithin fs vars n ss))) := by
  cases n <;> rfl

theorem collectWithin_spread (n : Nat) {name : String} {f : Fragment}
    (found : fragment? fs name = some f) (ds : List Directive) (ss : List Selection) :
    collectWithin fs vars (n + 1) (.spread name ds :: ss) = (do
      let found ← guarded vars ds (collectWithin fs vars n f.selections)
      .ok (found ++ (← collectWithin fs vars (n + 1) ss))) := by
  rw [collectWithin, collectWith, collectOne, found]
  rfl

theorem guarded_staying (ds : List Directive) {b : Bool} (known : isIncluded vars ds = .ok b)
    (rs : List Way) :
    guarded vars ds (.ok (staying vars rs)) = .ok (staying vars (rs.map (·.after ds))) := by
  rw [guarded, known, staying_after known]
  cases b <;> rfl

/-- Collecting with a bound above the ranks of all that is opened collects what stays of all that is
reached. -/
theorem collectWithin_reaches {rank : String → Nat} {bound : Nat} (ranks : Ranks fs rank bound)
    (founded : Founded fs) (readable : ∀ f ∈ fs, Readable vars f.selections) (depth : Nat)
    (ss : List Selection) (defined : Defined fs ss) (below : ∀ n ∈ spreads ss, rank n < depth)
    (own : Readable vars ss) :
    ∃ rs, Reaches fs ss rs ∧ collectWithin fs vars depth ss = .ok (staying vars rs) := by
  -- The bound falls wherever a fragment is opened, and within one bound the selections get fewer.
  induction depth using Nat.strongRecOn generalizing ss with
  | ind depth shallower =>
    induction ss using selections_induct with
    | nil => exact ⟨[], .nil, by cases depth <;> rfl⟩
    | field label name args ds tt ss _ ih =>
      simp only [spreads_field, Defined, List.mem_append, or_imp, forall_and] at defined below
      obtain ⟨⟨b, known⟩, others⟩ := readable_cons own
      obtain ⟨rs, reaches, collected⟩ := ih defined.2 below.2 others
      have alone : [⟨label, name, args, tt⟩] = staying vars [([], ⟨label, name, args, tt⟩)] := by
        simp [staying]
      refine ⟨_, .field reaches, ?_⟩
      rw [collectWithin_field, collected, alone, guarded_staying ds known]
      exact congrArg Except.ok (staying_append _ _).symm
    | spread name ds ss ih =>
      simp only [spreads_spread, Defined, List.mem_cons, forall_eq_or_imp] at defined below
      obtain ⟨⟨b, known⟩, others⟩ := readable_cons own
      obtain ⟨rs, reaches, collected⟩ := ih defined.2 below.2 others
      obtain ⟨f, found⟩ := Option.isSome_iff_exists.1 defined.1
      obtain ⟨depth, rfl⟩ : ∃ k, depth = k + 1 := ⟨depth - 1, by omega⟩
      have lower : ∀ n ∈ spreads f.selections, rank n < depth := by
        intro n hn
        have falls := ranks.falls name n ⟨f, found, hn⟩
        omega
      obtain ⟨is, beneath, opened⟩ := shallower depth (by omega) f.selections
        (founded.defined name f found) lower (readable f (fragment?_mem found))
      refine ⟨_, .spread found beneath reaches, ?_⟩
      rw [collectWithin_spread depth found, collected, opened, guarded_staying ds known,
        staying_append]
      rfl
    | inline onType ds tt ss ihb ih =>
      simp only [spreads_inline, Defined, List.mem_append, or_imp, forall_and] at defined below
      obtain ⟨⟨b, known⟩, others⟩ := readable_cons own
      obtain ⟨is, beneath, within⟩ := ihb defined.1 below.1 (readable_inline own)
      obtain ⟨rs, reaches, collected⟩ := ih defined.2 below.2 others
      refine ⟨_, .inline beneath reaches, ?_⟩
      rw [collectWithin_inline, collected, within, guarded_staying ds known, staying_append]
      rfl

end

/-! ## Selection sets of a document -/

/-- The selections beneath a selection. -/
def Selection.beneath : Selection → List Selection
  | .field _ _ _ _ ss => ss
  | .spread .. => []
  | .inline _ _ ss => ss

/-- The selection sets of operations and fragments. -/
def outermost (d : Document) : List (List Selection) :=
  (operations d).map (·.selections) ++ (fragments d).map (·.selections)

/-- Whether selections are a selection set of a document, at any depth. -/
def IsSelectionSet (d : Document) (ss : List Selection) : Prop :=
  ∃ tt ∈ outermost d, ss = tt ∨ ∃ s ∈ insideAll tt, ss = s.beneath

theorem insideAll_beneath {s : Selection} {tt : List Selection} (hs : s ∈ insideAll tt)
    {x : Selection} (hx : x ∈ insideAll s.beneath) : x ∈ insideAll tt := by
  induction tt using selections_induct with
  | nil => cases hs
  | field label name args ds uu tt ihb ih =>
    simp only [insideAll, inside, List.cons_append, List.mem_cons, List.mem_append] at hs ⊢
    rcases hs with rfl | hs | hs
    · exact .inr (.inl hx)
    · exact .inr (.inl (ihb hs))
    · exact .inr (.inr (ih hs))
  | spread name ds tt ih =>
    simp only [insideAll, inside, List.cons_append, List.nil_append, List.mem_cons] at hs ⊢
    rcases hs with rfl | hs
    · cases hx
    · exact .inr (ih hs)
  | inline onType ds uu tt ihb ih =>
    simp only [insideAll, inside, List.cons_append, List.mem_cons, List.mem_append] at hs ⊢
    rcases hs with rfl | hs | hs
    · exact .inr (.inl hx)
    · exact .inr (.inl (ihb hs))
    · exact .inr (.inr (ih hs))

theorem spreads_subset {ss tt : List Selection} (sub : insideAll ss ⊆ insideAll tt) :
    spreads ss ⊆ spreads tt :=
  List.filterMap_subset _ sub

/-- Whether spreads of a document are all defined, and none of its fragments contains itself. -/
structure Flattens (d : Document) : Prop where
  defined : ∀ tt ∈ outermost d, Defined (fragments d) tt
  acyclic : ∀ n, ¬Relation.TransGen (Contains (fragments d)) n n

theorem Flattens.founded {d : Document} (h : Flattens d) : Founded (fragments d) := by
  refine ⟨fun n f found => h.defined _ (List.mem_append_right _ ?_), h.acyclic⟩
  exact List.mem_map_of_mem (fragment?_mem found)

/-- What is collected from a selection set of a document, if its directives can be read, is what
stays of all that the selection set comes to. -/
theorem collect_reaches {d : Document} (flattens : Flattens d) {vars : Variables}
    (readable : ∀ tt ∈ outermost d, Readable vars tt) {ss : List Selection}
    (h : IsSelectionSet d ss) :
    ∃ rs, Reaches (fragments d) ss rs
      ∧ collect (fragments d) vars ss = .ok (staying vars rs) := by
  have founded := flattens.founded
  obtain ⟨rank, ranks⟩ := founded.ranks
  obtain ⟨tt, ht, within⟩ := h
  have sub : insideAll ss ⊆ insideAll tt := by
    rcases within with rfl | ⟨s, hs, rfl⟩
    · exact fun _ => id
    · exact fun x hx => insideAll_beneath hs hx
  have defined : Defined (fragments d) ss :=
    fun n hn => flattens.defined tt ht n (spreads_subset sub hn)
  refine collectWithin_reaches ranks founded ?_ _ ss defined
    (fun n hn => ranks.below n (defined n hn)) fun s hs => readable tt ht s (sub hs)
  exact fun f hf => readable _ (List.mem_append_right _ (List.mem_map_of_mem hf))

end EntityGraph.Document
