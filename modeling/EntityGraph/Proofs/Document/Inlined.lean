import EntityGraph.Proofs.Document.Spread
import Mathlib.Algebra.Order.BigOperators.Group.List
import Mathlib.Algebra.Order.Ring.Nat
import Mathlib.Data.List.Forall2

/-!
# Spreads written out

A spread can be written as an inline fragment: under the same directives, with the condition and the
selections of its fragment. Doing so with some spreads of a document gives another document, which
has other fragments, opens them to another depth and is of another size. What both have in common is
what is left when all spreads are written out, over and over again: these selections need no
fragments, and are the same ones for both documents.

So nothing is compared between the two documents directly. Collecting fields and expanding them is
compared between a document and its selections written out, where the bounds that come from the
document turn out to be wide enough: collecting opens no more fragments than there are, one inside
the other, and fields are nested no deeper than there are selections, since on the way down no
fragment is entered twice.
-/

namespace EntityGraph.Document

/-- Selections of which the second ones are the first ones with some spreads written out. -/
inductive Inlined (fs : List Fragment) : List Selection → List Selection → Prop
  | nil : Inlined fs [] []
  | field {label : Option String} {name : String} {args : List Argument} {ds : List Directive}
      {tt tt' ss ss' : List Selection} (beneath : Inlined fs tt tt') (rest : Inlined fs ss ss') :
      Inlined fs (.field label name args ds tt :: ss) (.field label name args ds tt' :: ss')
  | inline {onType : Option String} {ds : List Directive} {tt tt' ss ss' : List Selection}
      (beneath : Inlined fs tt tt') (rest : Inlined fs ss ss') :
      Inlined fs (.inline onType ds tt :: ss) (.inline onType ds tt' :: ss')
  | spread {name : String} {ds : List Directive} {ss ss' : List Selection}
      (rest : Inlined fs ss ss') : Inlined fs (.spread name ds :: ss) (.spread name ds :: ss')
  | replaced {name : String} {ds : List Directive} {f : Fragment} {tt' ss ss' : List Selection}
      (found : fragment? fs name = some f) (beneath : Inlined fs f.selections tt')
      (rest : Inlined fs ss ss') :
      Inlined fs (.spread name ds :: ss) (.inline (some f.onType) ds tt' :: ss')

/-- Fragments of which the second ones are some of the first ones with some spreads written out. -/
def InlinedFragments (fs fs' : List Fragment) : Prop :=
  ∀ n f', fragment? fs' n = some f' → ∃ f, fragment? fs n = some f
    ∧ f'.onType = f.onType ∧ Inlined fs f.selections f'.selections

/-- Selections of which the second ones are the first ones with all spreads written out. -/
inductive Unrolled (fs : List Fragment) : List Selection → List Selection → Prop
  | nil : Unrolled fs [] []
  | field {label : Option String} {name : String} {args : List Argument} {ds : List Directive}
      {tt tt' ss ss' : List Selection} (beneath : Unrolled fs tt tt') (rest : Unrolled fs ss ss') :
      Unrolled fs (.field label name args ds tt :: ss) (.field label name args ds tt' :: ss')
  | inline {onType : Option String} {ds : List Directive} {tt tt' ss ss' : List Selection}
      (beneath : Unrolled fs tt tt') (rest : Unrolled fs ss ss') :
      Unrolled fs (.inline onType ds tt :: ss) (.inline onType ds tt' :: ss')
  | spread {name : String} {ds : List Directive} {f : Fragment} {tt' ss ss' : List Selection}
      (found : fragment? fs name = some f) (beneath : Unrolled fs f.selections tt')
      (rest : Unrolled fs ss ss') :
      Unrolled fs (.spread name ds :: ss) (.inline (some f.onType) ds tt' :: ss')

/-- Fields that differ at most in spreads that are written out beneath them. -/
structure FieldNode.Unrolled (fs : List Fragment) (n n' : FieldNode) : Prop where
  label : n'.label = n.label
  name : n'.name = n.name
  args : n'.args = n.args
  selections : Document.Unrolled fs n.selections n'.selections

theorem FieldNode.Unrolled.output {fs : List Fragment} {n n' : FieldNode}
    (h : FieldNode.Unrolled fs n n') : n'.output = n.output := by
  rw [FieldNode.output, FieldNode.output, h.label, h.name]

/-- Outcomes that are related values, or the same fault. -/
inductive Agreeing {α β : Type} (R : α → β → Prop) : Outcome α → Outcome β → Prop
  | ok {a : α} {b : β} (h : R a b) : Agreeing R (.ok a) (.ok b)
  | error (e : Fault) : Agreeing R (.error e) (.error e)

section

variable {fs fs' : List Fragment}

/-! ## Writing out -/

theorem Inlined.refl (ss : List Selection) : Inlined fs ss ss := by
  induction ss using selections_induct with
  | nil => exact .nil
  | field _ _ _ _ _ _ beneath rest => exact .field beneath rest
  | spread _ _ _ rest => exact .spread rest
  | inline _ _ _ _ beneath rest => exact .inline beneath rest

theorem Unrolled.isEmpty {ss tt : List Selection} (h : Unrolled fs ss tt) :
    ss.isEmpty = tt.isEmpty := by
  cases h <;> rfl

/-- What is left when all spreads are written out does not depend on whether some were before. -/
theorem Inlined.unrolled (fragments : InlinedFragments fs fs') {ss ss' tt : List Selection}
    (h : Inlined fs ss ss') (unrolled : Unrolled fs' ss' tt) : Unrolled fs ss tt := by
  induction unrolled generalizing ss with
  | nil =>
    cases h
    exact .nil
  | field _ _ ihb ih =>
    cases h with
    | field beneath rest => exact .field (ihb beneath) (ih rest)
  | inline _ _ ihb ih =>
    cases h with
    | inline beneath rest => exact .inline (ihb beneath) (ih rest)
    | replaced found beneath rest => exact .spread found (ihb beneath) (ih rest)
  | spread found' _ _ ihb ih =>
    cases h with
    | spread rest =>
      obtain ⟨f, found, onType, beneath⟩ := fragments _ _ found'
      rw [onType]
      exact .spread found (ihb beneath) (ih rest)

/-- What is opened after some spreads were written out was opened before, directly or through
fragments. -/
theorem Inlined.spreads {ss ss' : List Selection} (h : Inlined fs ss ss') {n : String}
    (hn : n ∈ spreads ss') :
    ∃ m ∈ Document.spreads ss, Relation.ReflTransGen (Contains fs) m n := by
  induction h with
  | nil => cases hn
  | field _ _ ihb ih =>
    rw [spreads_field] at hn ⊢
    rcases List.mem_append.1 hn with hn | hn
    · obtain ⟨m, hm, path⟩ := ihb hn
      exact ⟨m, List.mem_append_left _ hm, path⟩
    · obtain ⟨m, hm, path⟩ := ih hn
      exact ⟨m, List.mem_append_right _ hm, path⟩
  | inline _ _ ihb ih =>
    rw [spreads_inline] at hn ⊢
    rcases List.mem_append.1 hn with hn | hn
    · obtain ⟨m, hm, path⟩ := ihb hn
      exact ⟨m, List.mem_append_left _ hm, path⟩
    · obtain ⟨m, hm, path⟩ := ih hn
      exact ⟨m, List.mem_append_right _ hm, path⟩
  | spread _ ih =>
    rw [spreads_spread] at hn ⊢
    rcases List.mem_cons.1 hn with rfl | hn
    · exact ⟨_, List.mem_cons_self, .refl⟩
    · obtain ⟨m, hm, path⟩ := ih hn
      exact ⟨m, List.mem_cons_of_mem _ hm, path⟩
  | @replaced name ds f tt' ss ss' found _ _ ihb ih =>
    rw [spreads_inline] at hn
    rw [spreads_spread]
    rcases List.mem_append.1 hn with hn | hn
    · obtain ⟨m, hm, path⟩ := ihb hn
      exact ⟨name, List.mem_cons_self, .head ⟨f, found, hm⟩ path⟩
    · obtain ⟨m, hm, path⟩ := ih hn
      exact ⟨m, List.mem_cons_of_mem _ hm, path⟩

theorem Unrolled.defined {ss tt : List Selection} (h : Unrolled fs ss tt) : Defined fs ss := by
  induction h with
  | nil => exact nofun
  | field _ _ beneath rest =>
    simp only [Defined, spreads_field, List.mem_append]
    exact fun n hn => hn.elim (beneath n) (rest n)
  | inline _ _ beneath rest =>
    simp only [Defined, spreads_inline, List.mem_append]
    exact fun n hn => hn.elim (beneath n) (rest n)
  | spread found _ _ _ rest =>
    simp only [Defined, spreads_spread, List.mem_cons]
    rintro n (rfl | hn)
    · exact found ▸ rfl
    · exact rest n hn

/-- The spreads of selections can be written out up to the end if no fragment contains itself. -/
theorem Founded.unrolled (founded : Founded fs) {ss : List Selection} (defined : Defined fs ss) :
    ∃ tt, Unrolled fs ss tt := by
  obtain ⟨rank, ranks⟩ := founded.ranks
  have within (depth : Nat) (ss : List Selection) (defined : Defined fs ss)
      (below : ∀ n ∈ Document.spreads ss, rank n < depth) : ∃ tt, Unrolled fs ss tt := by
    induction depth using Nat.strongRecOn generalizing ss with
    | ind depth shallower =>
      induction ss using selections_induct with
      | nil => exact ⟨[], .nil⟩
      | field label name args ds tt ss ihb ih =>
        simp only [spreads_field, Defined, List.mem_append, or_imp, forall_and] at defined below
        obtain ⟨_, beneath⟩ := ihb defined.1 below.1
        obtain ⟨_, rest⟩ := ih defined.2 below.2
        exact ⟨_, .field beneath rest⟩
      | inline onType ds tt ss ihb ih =>
        simp only [spreads_inline, Defined, List.mem_append, or_imp, forall_and] at defined below
        obtain ⟨_, beneath⟩ := ihb defined.1 below.1
        obtain ⟨_, rest⟩ := ih defined.2 below.2
        exact ⟨_, .inline beneath rest⟩
      | spread name ds ss ih =>
        simp only [spreads_spread, Defined, List.mem_cons, forall_eq_or_imp] at defined below
        obtain ⟨f, found⟩ := Option.isSome_iff_exists.1 defined.1
        obtain ⟨_, beneath⟩ := shallower (rank name) below.1 f.selections
          (founded.defined name f found) fun n hn => ranks.falls name n ⟨f, found, hn⟩
        obtain ⟨_, rest⟩ := ih defined.2 below.2
        exact ⟨_, .spread found beneath rest⟩
  exact within fs.length ss defined fun n hn => ranks.below n (defined n hn)

/-- What is computed with a bound on how deep fragments are opened, and with one that opens no
fragments from what is written out, is compared along the selections: there is always enough of the
bound left to open the next fragment. -/
theorem Unrolled.bounded {P : Nat → List Selection → List Selection → Prop}
    (nil : ∀ depth, P depth [] [])
    (field : ∀ depth label name args ds {tt tt' ss ss'}, Unrolled fs tt tt' → P depth tt tt' →
      P depth ss ss' →
      P depth (.field label name args ds tt :: ss) (.field label name args ds tt' :: ss'))
    (inline : ∀ depth onType ds {tt tt' ss ss'}, P depth tt tt' → P depth ss ss' →
      P depth (.inline onType ds tt :: ss) (.inline onType ds tt' :: ss'))
    (spread : ∀ depth {name} ds {f tt' ss ss'}, fragment? fs name = some f →
      P depth f.selections tt' → P (depth + 1) ss ss' →
      P (depth + 1) (.spread name ds :: ss) (.inline (some f.onType) ds tt' :: ss'))
    (founded : Founded fs) {ss tt : List Selection} (h : Unrolled fs ss tt) :
    P fs.length ss tt := by
  obtain ⟨rank, ranks⟩ := founded.ranks
  have within (depth : Nat) (below : ∀ n ∈ Document.spreads ss, rank n < depth) :
      P depth ss tt := by
    induction h generalizing depth with
    | nil => exact nil depth
    | field beneath _ ihb ih =>
      simp only [spreads_field, List.mem_append, or_imp, forall_and] at below
      exact field depth _ _ _ _ beneath (ihb depth below.1) (ih depth below.2)
    | inline _ _ ihb ih =>
      simp only [spreads_inline, List.mem_append, or_imp, forall_and] at below
      exact inline depth _ _ (ihb depth below.1) (ih depth below.2)
    | @spread name ds f _ _ _ found _ _ ihb ih =>
      simp only [spreads_spread, List.mem_cons, forall_eq_or_imp] at below
      obtain ⟨depth, rfl⟩ : ∃ k, depth = k + 1 := ⟨depth - 1, by omega⟩
      refine spread depth ds found (ihb depth fun n hn => ?_) (ih (depth + 1) below.2)
      have falls := ranks.falls name n ⟨f, found, hn⟩
      omega
  exact within fs.length fun n hn => ranks.below n (h.defined n hn)

/-! ## Collecting -/

theorem Agreeing.bind {α β γ δ : Type} {R : α → β → Prop} {S : γ → δ → Prop} {x : Outcome α}
    {y : Outcome β} {f : α → Outcome γ} {g : β → Outcome δ} (first : Agreeing R x y)
    (rest : ∀ a b, R a b → Agreeing S (f a) (g b)) : Agreeing S (x >>= f) (y >>= g) := by
  cases first with
  | ok h => exact rest _ _ h
  | error e => exact .error e

theorem agreeing_eq {α : Type} {x y : Outcome α} : Agreeing Eq x y ↔ x = y := by
  constructor
  · intro h
    cases h with
    | ok h => rw [h]
    | error => rfl
  · rintro rfl
    cases x with
    | ok a => exact .ok rfl
    | error e => exact .error e

variable {vars : Variables}

theorem Agreeing.guarded {R : List FieldNode → List FieldNode → Prop} (nil : R [] [])
    (ds : List Directive) {x y : Outcome (List FieldNode)} (h : Agreeing R x y) :
    Agreeing R (guarded vars ds x) (guarded vars ds y) := by
  unfold Document.guarded
  cases isIncluded vars ds with
  | error e => exact .error e
  | ok b =>
    cases b
    · exact .ok nil
    · exact h

/-- The same fields are collected once all spreads are written out. -/
theorem Unrolled.collect (founded : Founded fs) {ss tt : List Selection}
    (h : Unrolled fs ss tt) :
    Agreeing (List.Forall₂ (FieldNode.Unrolled fs)) (collect fs vars ss) (collect [] vars tt) := by
  have join {x y x' y' : Outcome (List FieldNode)}
      (first : Agreeing (List.Forall₂ (FieldNode.Unrolled fs)) x x')
      (rest : Agreeing (List.Forall₂ (FieldNode.Unrolled fs)) y y') :
      Agreeing (List.Forall₂ (FieldNode.Unrolled fs)) (do let a ← x; .ok (a ++ (← y)))
        (do let a ← x'; .ok (a ++ (← y'))) :=
    first.bind fun _ _ h => rest.bind fun _ _ h' => .ok (List.rel_append h h')
  refine Unrolled.bounded (P := fun depth ss tt => Agreeing (List.Forall₂ (FieldNode.Unrolled fs))
    (collectWithin fs vars depth ss) (collectWithin [] vars 0 tt)) ?nil ?field ?inline ?spread
    founded h
  case nil =>
    intro depth
    cases depth <;> exact .ok .nil
  case field =>
    intro depth label name args ds _ _ _ _ beneath _ ih
    rw [collectWithin_field, collectWithin_field]
    exact join (.guarded .nil _ (.ok (.cons ⟨rfl, rfl, rfl, beneath⟩ .nil))) ih
  case inline =>
    intro depth onType ds _ _ _ _ ihb ih
    rw [collectWithin_inline, collectWithin_inline]
    exact join (.guarded .nil _ ihb) ih
  case spread =>
    intro depth _ ds _ _ _ _ found ihb ih
    rw [collectWithin_spread depth found, collectWithin_inline]
    exact join (.guarded .nil ds ihb) ih

/-! ## How deep fields are nested -/

mutual

/-- How many fields are nested in a selection, as it is written. -/
def nestingOne : Selection → Nat
  | .field _ _ _ _ ss => nestingAll ss + 1
  | .spread .. => 0
  | .inline _ _ ss => nestingAll ss

/-- How many fields are nested in several selections, as they are written. -/
def nestingAll : List Selection → Nat
  | [] => 0
  | s :: ss => max (nestingOne s) (nestingAll ss)

end

/-- The number of selections in the fragments of ranks below a bound. -/
def weight (fs : List Fragment) (rank : String → Nat) (bound : Nat) : Nat :=
  (fs.map fun f => if rank f.name < bound then sizeAll f.selections else 0).sum

theorem weight_mono (fs : List Fragment) (rank : String → Nat) {a b : Nat} (le : a ≤ b) :
    weight fs rank a ≤ weight fs rank b := by
  refine List.sum_le_sum fun f _ => ?_
  split <;> split <;> omega

/-- On entering a fragment its selections are met instead of its rank. -/
theorem weight_enter {rank : String → Nat} {f : Fragment} (among : f ∈ fs) {bound : Nat}
    (below : rank f.name < bound) :
    sizeAll f.selections + weight fs rank (rank f.name) ≤ weight fs rank bound := by
  induction fs with
  | nil => cases among
  | cons g gs ih =>
    simp only [weight, List.map_cons, List.sum_cons] at ih ⊢
    rcases List.mem_cons.1 among with rfl | among
    · have others := weight_mono gs rank (Nat.le_of_lt below)
      simp only [weight] at others
      rw [if_neg (Nat.lt_irrefl _), if_pos below]
      omega
    · have others := ih among
      split <;> split <;> omega

theorem sizeAll_flatMap {α : Type} (xs : List α) (within : α → List Selection) :
    sizeAll (xs.flatMap within) = (xs.map fun x => sizeAll (within x)).sum := by
  have append (ss tt : List Selection) : sizeAll (ss ++ tt) = sizeAll ss + sizeAll tt := by
    induction ss with
    | nil => simp [sizeAll]
    | cons s ss ih => simp only [List.cons_append, sizeAll, ih, Nat.add_assoc]
  induction xs with
  | nil => rfl
  | cons x xs ih => rw [List.flatMap_cons, append, ih, List.map_cons, List.sum_cons]

theorem weight_le (fs : List Fragment) (rank : String → Nat) (bound : Nat) :
    weight fs rank bound ≤ sizeAll (fs.flatMap (·.selections)) := by
  rw [sizeAll_flatMap]
  refine List.sum_le_sum fun f _ => ?_
  split <;> omega

/-- Fields are nested no deeper than there are selections at hand and in fragments of lower
ranks. -/
theorem Unrolled.nesting_le {rank : String → Nat} {bound : Nat} (ranks : Ranks fs rank bound)
    {ss tt : List Selection} (h : Unrolled fs ss tt) (depth : Nat)
    (below : ∀ n ∈ Document.spreads ss, rank n < depth) :
    nestingAll tt ≤ sizeAll ss + weight fs rank depth := by
  induction h generalizing depth with
  | nil => exact Nat.zero_le _
  | field _ _ ihb ih =>
    simp only [spreads_field, List.mem_append, or_imp, forall_and] at below
    have beneath := ihb depth below.1
    have rest := ih depth below.2
    simp only [nestingAll, nestingOne, sizeAll, sizeOne]
    omega
  | inline _ _ ihb ih =>
    simp only [spreads_inline, List.mem_append, or_imp, forall_and] at below
    have beneath := ihb depth below.1
    have rest := ih depth below.2
    simp only [nestingAll, nestingOne, sizeAll, sizeOne]
    omega
  | @spread name ds f _ _ _ found _ _ ihb ih =>
    simp only [spreads_spread, List.mem_cons, forall_eq_or_imp] at below
    have entered := weight_enter (fragment?_mem found) (fragment?_name found ▸ below.1)
    have beneath := ihb (rank f.name) fun n hn =>
      ranks.falls f.name n ⟨f, fragment?_name found ▸ found, hn⟩
    have rest := ih depth below.2
    simp only [nestingAll, nestingOne, sizeAll, sizeOne]
    omega

/-- Fields of an operation are nested no deeper than there are selections in the document. -/
theorem Unrolled.nesting_le_size {d : Document} (founded : Founded (fragments d)) {o : Operation}
    (among : o ∈ operations d) {tt : List Selection}
    (h : Unrolled (fragments d) o.selections tt) : nestingAll tt ≤ size d := by
  obtain ⟨rank, ranks⟩ := founded.ranks
  have here : sizeAll o.selections ≤ sizeAll ((operations d).flatMap (·.selections)) := by
    rw [sizeAll_flatMap]
    exact List.le_sum_of_mem (List.mem_map_of_mem among)
  have there := weight_le (fragments d) rank (fragments d).length
  have both := h.nesting_le ranks (fragments d).length fun n hn => ranks.below n (h.defined n hn)
  unfold size
  omega

/-! ## Expanding -/

theorem nestingOne_le {s : Selection} {ss : List Selection} (among : s ∈ ss) :
    nestingOne s ≤ nestingAll ss := by
  induction ss with
  | nil => cases among
  | cons x xs ih =>
    rw [nestingAll]
    rcases List.mem_cons.1 among with rfl | among
    · exact Nat.le_max_left _ _
    · exact (ih among).trans (Nat.le_max_right _ _)

theorem Met.nesting_le {ss : List Selection} {s : Selection} (met : Met [] vars ss s) :
    nestingOne s ≤ nestingAll ss := by
  induction met with
  | here among => exact nestingOne_le among
  | inline among _ _ ih =>
    have here := nestingOne_le among
    rw [nestingOne] at here
    exact ih.trans here
  | spread _ _ found => cases found

/-- Fields that are collected without opening a fragment are nested less deep. -/
theorem collect_nesting {ss : List Selection} {nodes : List FieldNode}
    (h : Document.collect [] vars ss = .ok nodes) {n : FieldNode} (hn : n ∈ nodes) :
    nestingAll n.selections < nestingAll ss := by
  obtain ⟨ds, met, _⟩ := ((collectWithin_collects _ h).kept n).1 hn
  have deep := met.nesting_le
  rw [nestingOne] at deep
  omega

variable {check : FieldNode → Outcome Unit}

theorem mapM_agreeing {α β γ : Type} {R : α → β → Prop} {f : α → Outcome γ} {g : β → Outcome γ}
    {as : List α} {bs : List β} (related : List.Forall₂ R as bs)
    (each : ∀ a b, R a b → f a = g b) : as.mapM f = bs.mapM g := by
  induction related with
  | nil => rfl
  | cons first _ ih => rw [List.mapM_cons, List.mapM_cons, each _ _ first, ih]

/-- With the same bound, fields are expanded into the same once all spreads are written out. -/
theorem expandWithin_unrolled (founded : Founded fs)
    (alike : ∀ n n', FieldNode.Unrolled fs n n' → check n = check n') (depth : Nat)
    {nodes nodes' : List FieldNode} (h : List.Forall₂ (FieldNode.Unrolled fs) nodes nodes') :
    expandWithin fs vars check depth nodes = expandWithin [] vars check depth nodes' := by
  induction depth generalizing nodes nodes' with
  | zero => cases h <;> rfl
  | succ depth ih =>
    refine mapM_agreeing h fun n n' same => ?_
    simp only [alike n n' same, same.output, same.name, same.args]
    refine congrArg (check n' >>= ·) (funext fun _ => agreeing_eq.1 ?_)
    refine (same.selections.collect founded).bind fun _ _ children => agreeing_eq.2 ?_
    rw [ih children]

/-- Any two bounds that are above the nesting of fields expand them into the same. -/
theorem expandWithin_stable (a b : Nat) {nodes : List FieldNode}
    (below : ∀ n ∈ nodes, nestingAll n.selections < a)
    (below' : ∀ n ∈ nodes, nestingAll n.selections < b) :
    expandWithin [] vars check a nodes = expandWithin [] vars check b nodes := by
  induction a generalizing b nodes with
  | zero =>
    cases nodes with
    | nil => cases b <;> rfl
    | cons n _ => exact absurd (below n (by simp)) (Nat.not_lt_zero _)
  | succ a ih =>
    cases b with
    | zero =>
      cases nodes with
      | nil => rfl
      | cons n _ => exact absurd (below' n (by simp)) (Nat.not_lt_zero _)
    | succ b =>
      have own : List.Forall₂ (fun n m => n = m ∧ n ∈ nodes) nodes nodes :=
        List.forall₂_same.2 fun n hn => ⟨rfl, hn⟩
      refine mapM_agreeing own fun n _ ⟨is, hn⟩ => is ▸ ?_
      refine congrArg (check n >>= ·) (funext fun _ => ?_)
      cases collected : Document.collect [] vars n.selections with
      | error e => rfl
      | ok children =>
        have low := below n hn
        have low' := below' n hn
        have same : expandWithin [] vars check a children
            = expandWithin [] vars check b children := ih b
          (fun c hc => Nat.lt_of_lt_of_le (collect_nesting collected hc) (by omega))
          (fun c hc => Nat.lt_of_lt_of_le (collect_nesting collected hc) (by omega))
        show (expandWithin [] vars check a children >>= _) = _
        rw [same]
        rfl

/-- Fields of a document are expanded into the same once all spreads are written out, with any bound
that is above their nesting. -/
theorem expand_unrolled {d : Document} (founded : Founded (fragments d))
    (alike : ∀ n n', FieldNode.Unrolled (fragments d) n n' → check n = check n')
    {nodes nodes' : List FieldNode}
    (h : List.Forall₂ (FieldNode.Unrolled (fragments d)) nodes nodes') (bound : Nat)
    (below : ∀ n ∈ nodes', nestingAll n.selections < bound)
    (small : ∀ n ∈ nodes', nestingAll n.selections ≤ size d) :
    expand d vars check nodes = expandWithin [] vars check bound nodes' := by
  rw [expand, expandWithin_unrolled founded alike _ h]
  exact expandWithin_stable _ _ (fun n hn => Nat.lt_succ_of_le (small n hn)) below

end

end EntityGraph.Document
