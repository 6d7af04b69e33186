import EntityGraph.Proofs.Document.Spread
import EntityGraph.Proofs.Document.Written
import EntityGraph.Proofs.Run
import EntityGraph.Validity.Document
import EntityGraph.Document.Outline

/-!
# Fields that are collected are mentioned

The rules for documents look at selections where they stand, and a request is carried out with
fragments opened in place. This module brings both together. Opening never changes the object
beneath which a field is looked up, because a condition can only name that very object. So every
field that is collected is one that the rules have seen beneath the same object, and unless a
directive leaves selections out, something is collected wherever something is selected.
-/

set_option linter.unusedSectionVars false

namespace EntityGraph.Validity

open Document Interface

/-- What the rules say of every selection of a document. -/
structure Obeys (sys : TypeSystem) (d : Document) : Prop where
  fits : ∀ m ∈ inDocument sys d, selectionFits sys m = true
  opens : ∀ m ∈ inDocument sys d, opensProperly sys d m = true
  conditions : ∀ n ∈ conditions sys d, (sys.object? n).isSome

theorem isValid_obeys {sys : TypeSystem} {d : Document} (h : d.isValid sys = true) :
    Obeys sys d := by
  simp only [Document.isValid, structureHolds, fieldsHold, conditionsHold, spreadsFit,
    Bool.and_eq_true, List.all_eq_true] at h
  obtain ⟨⟨⟨⟨⟨⟨_, conditions⟩, spreads⟩, _⟩, fields, _⟩, _⟩, _⟩ := h
  exact ⟨fun m hm => (fields m hm).1, spreads, conditions⟩

/-- Whether no directive of a document leaves a selection out. -/
def Unconditional (sys : TypeSystem) (d : Document) : Prop :=
  ∀ m ∈ inDocument sys d, ∀ x ∈ m.directives, x.name ≠ "skip" ∧ x.name ≠ "include"

/-- Whether a field is one that stands beneath an object in a document. -/
structure Meant (sys : TypeSystem) (d : Document) (t : TypeDef) (n : FieldNode) : Prop where
  mentioned : ∃ ds, ∀ m ∈ mentions sys (some t) (.field n.label n.name n.args ds n.selections),
    m ∈ inDocument sys d
  filled : areFilled n.selections = true

/-- Whether selections stand beneath an object in a document. -/
structure Beneath (sys : TypeSystem) (d : Document) (t : TypeDef) (ss : List Selection) : Prop where
  mentioned : ∀ m ∈ mentionsAll sys (some t) ss, m ∈ inDocument sys d
  filled : areFilled ss = true

/-- What collecting finds beneath an object: only fields that stand there, and some field. -/
def Finds (sys : TypeSystem) (d : Document) (t : TypeDef) (nodes : List FieldNode) : Prop :=
  (∀ n ∈ nodes, Meant sys d t n) ∧ nodes ≠ []

/-- What collecting gives beneath an object: only fields that stand there, and some field unless a
directive leaves selections out. -/
structure Gathers (sys : TypeSystem) (d : Document) (t : TypeDef) (nodes : List FieldNode) :
    Prop where
  meant : ∀ n ∈ nodes, Meant sys d t n
  some : Unconditional sys d → nodes ≠ []

theorem object?_name {sys : TypeSystem} {name : String} {t : TypeDef}
    (h : sys.object? name = some t) : t.name = name := by
  unfold TypeSystem.object? at h
  obtain ⟨found, _⟩ := Option.filter_eq_some_iff.1 h
  simpa using List.find?_some found

/-- Of two objects that may be the same, one that is found by its name is the other one. -/
theorem object?_same {sys : TypeSystem} {name : String} {t t' : TypeDef}
    (known : sys.object? t.name = some t) (found : sys.object? name = some t')
    (same : mayBeSame (some t') (some t) = true) : t' = t := by
  have names : t'.name = t.name := by simpa [mayBeSame] using same
  have here := object?_name found
  rw [← here, names, known] at found
  exact (Option.some.inj found).symm

theorem isIncluded_of_unconditional {ds : List Directive} (vars : Variables)
    (h : ∀ x ∈ ds, x.name ≠ "skip" ∧ x.name ≠ "include") : isIncluded vars ds = .ok true := by
  have skips : ds.find? (·.name == "skip") = none := by
    rw [List.find?_eq_none]
    intro x hx
    simpa using (h x hx).1
  have includes : ds.find? (·.name == "include") = none := by
    rw [List.find?_eq_none]
    intro x hx
    simpa using (h x hx).2
  unfold isIncluded holds
  rw [skips, includes]
  rfl

section

variable {sys : TypeSystem} {d : Document}

theorem beneath_cons {t : TypeDef} {s : Selection} {ss : List Selection}
    (h : Beneath sys d t (s :: ss)) :
    (∀ m ∈ mentions sys (some t) s, m ∈ inDocument sys d) ∧ s.isFilled = true
      ∧ Beneath sys d t ss := by
  obtain ⟨mentioned, filled⟩ := h
  rw [mentionsAll] at mentioned
  rw [areFilled, Bool.and_eq_true] at filled
  refine ⟨fun m hm => mentioned m (List.mem_append_left _ hm), filled.1, ?_, filled.2⟩
  exact fun m hm => mentioned m (List.mem_append_right _ hm)

theorem mem_operations {o : Operation} : o ∈ operations d ↔ .operation o ∈ d := by
  rw [operations, List.mem_filterMap]
  refine ⟨fun ⟨x, hx, same⟩ => ?_, fun member => ⟨_, member, rfl⟩⟩
  cases x <;> cases same
  exact hx

theorem mem_fragments {f : Fragment} : f ∈ fragments d ↔ .fragment f ∈ d := by
  rw [fragments, List.mem_filterMap]
  refine ⟨fun ⟨x, hx, same⟩ => ?_, fun member => ⟨_, member, rfl⟩⟩
  cases x <;> cases same
  exact hx

/-- The selections of an operation stand beneath the root type. -/
theorem beneath_operation (filled : ∀ x ∈ d, x.isFilled = true) {o : Operation} {t : TypeDef}
    (h : o ∈ operations d) (root : rootOf sys o = some t) :
    Beneath sys d t o.selections ∧ o.selections ≠ [] := by
  have both := filled _ (mem_operations.1 h)
  rw [Definition.isFilled, Bool.and_eq_true] at both
  refine ⟨⟨fun m hm => ?_, both.2⟩, by simpa using both.1⟩
  refine List.mem_append_left _ (List.mem_flatMap.2 ⟨o, h, ?_⟩)
  rw [inOperation, root]
  exact hm

/-- The selections of a fragment stand beneath the object that it is conditional on. -/
theorem beneath_fragment (filled : ∀ x ∈ d, x.isFilled = true) {f : Fragment} {t : TypeDef}
    (h : f ∈ fragments d) (condition : sys.object? f.onType = some t) :
    Beneath sys d t f.selections ∧ f.selections ≠ [] := by
  have both := filled _ (mem_fragments.1 h)
  rw [Definition.isFilled, Bool.and_eq_true] at both
  refine ⟨⟨fun m hm => ?_, both.2⟩, by simpa using both.1⟩
  refine List.mem_append_right _ (List.mem_flatMap.2 ⟨f, h, ?_⟩)
  rw [inFragment, condition]
  exact hm

variable (obeys : Obeys sys d) {vars : Variables} {t : TypeDef}
  (known : sys.object? t.name = some t) {opened : Fragment → Outcome (List FieldNode)}
  (opens : ∀ f ∈ fragments d, sys.object? f.onType = some t → ∀ nodes, opened f = .ok nodes →
    Gathers sys d t nodes)

/-- A selection that is left out has a directive that leaves it out. -/
theorem gathers_nil {s : Selection} (here : (⟨some t, s⟩ : Mention) ∈ inDocument sys d)
    (left : isIncluded vars s.directives = .ok false) : Gathers sys d t [] where
  meant _ := nofun
  some unconditional := by
    have own : Mention.directives ⟨some t, s⟩ = s.directives := by cases s <;> rfl
    have included := isIncluded_of_unconditional vars (unconditional _ here)
    rw [own, left] at included
    cases included

include obeys known

/-- A condition names the object beneath which it stands already. -/
theorem under_same {onType : Option String} {ds : List Directive} {ss : List Selection}
    (here : (⟨some t, .inline onType ds ss⟩ : Mention) ∈ inDocument sys d) :
    under sys (some t) onType = some t := by
  cases onType with
  | none => rfl
  | some n =>
    have condition : n ∈ conditions sys d :=
      List.mem_append_left _ (List.mem_filterMap.2 ⟨_, here, rfl⟩)
    obtain ⟨t', found⟩ := Option.isSome_iff_exists.1 (obeys.conditions n condition)
    have proper : mayBeSame (sys.object? n) (some t) = true := obeys.opens _ here
    rw [found] at proper
    show sys.object? n = some t
    rw [found, object?_same known found proper]

/-- A fragment is conditional on the object beneath which it is opened. -/
theorem spread_same {name : String} {ds : List Directive} {f : Fragment}
    (here : (⟨some t, .spread name ds⟩ : Mention) ∈ inDocument sys d)
    (found : fragment? (fragments d) name = some f) : sys.object? f.onType = some t := by
  have condition : f.onType ∈ conditions sys d :=
    List.mem_append_right _ (List.mem_map_of_mem (fragment?_mem found))
  obtain ⟨t', object⟩ := Option.isSome_iff_exists.1 (obeys.conditions _ condition)
  have proper : mayBeSame ((fragment? (fragments d) name).bind fun f => sys.object? f.onType)
      (some t) = true := obeys.opens _ here
  rw [found, Option.bind_some, object] at proper
  rw [object, object?_same known object proper]

include opens

mutual

theorem collectOne_gathers (s : Selection)
    (mentioned : ∀ m ∈ mentions sys (some t) s, m ∈ inDocument sys d) (filled : s.isFilled = true)
    {nodes : List FieldNode} (h : collectOne (fragments d) vars opened s = .ok nodes) :
    Gathers sys d t nodes := by
  have here : (⟨some t, s⟩ : Mention) ∈ inDocument sys d :=
    mentioned _ (by cases s <;> rw [mentions] <;> exact List.mem_cons_self)
  rcases collectOne_ok h with ⟨left, rfl⟩ | ⟨_, stays⟩
  · exact gathers_nil here left
  cases s with
  | field label name args ds ss =>
    cases stays
    refine ⟨fun n hn => ?_, by simp⟩
    rw [List.mem_singleton.1 hn]
    exact ⟨⟨ds, mentioned⟩, filled⟩
  | inline onType ds ss =>
    rw [Selection.isFilled, Bool.and_eq_true] at filled
    have beneath : Beneath sys d t ss := by
      refine ⟨fun m hm => mentioned m ?_, filled.2⟩
      rw [mentions, under_same obeys known here]
      exact List.mem_cons_of_mem _ hm
    have some : ss ≠ [] := by simpa using filled.1
    cases stays with
    | inline inside => exact collectWith_gathers ss beneath some inside
  | spread name ds =>
    cases stays with
    | spread found inside =>
      exact opens _ (fragment?_mem found) (spread_same obeys known here found) nodes inside

theorem collectWith_gathers (ss : List Selection) (beneath : Beneath sys d t ss)
    (some : ss ≠ []) {nodes : List FieldNode}
    (h : collectWith (fragments d) vars opened ss = .ok nodes) : Gathers sys d t nodes := by
  cases ss with
  | nil => exact absurd rfl some
  | cons s ss =>
    obtain ⟨mentioned, filled, rest⟩ := beneath_cons beneath
    rw [collectWith] at h
    obtain ⟨first, found, h⟩ := outcome_bind_ok h
    obtain ⟨others, later, h⟩ := outcome_bind_ok h
    cases h
    have gathers := collectOne_gathers s mentioned filled found
    refine ⟨fun n hn => ?_, fun unconditional => by simp [gathers.some unconditional]⟩
    rcases List.mem_append.1 hn with hn | hn
    · exact gathers.meant n hn
    · cases ss with
      | nil =>
        cases later
        cases hn
      | cons s' ss => exact (collectWith_gathers (s' :: ss) rest (by simp) later).meant n hn

end

omit opens

/-- Whatever is collected from selections beneath an object stands beneath that object, and
something is collected if something is selected and no directive leaves selections out. -/
theorem collectWithin_gathers (filled : ∀ x ∈ d, x.isFilled = true) (depth : Nat)
    {ss : List Selection} (beneath : Beneath sys d t ss) (some : ss ≠ []) {nodes : List FieldNode}
    (h : collectWithin (fragments d) vars depth ss = .ok nodes) : Gathers sys d t nodes := by
  induction depth generalizing ss nodes with
  | zero =>
    have opens : ∀ f ∈ fragments d, sys.object? f.onType = Option.some t → ∀ nodes,
        (Except.error endless : Outcome (List FieldNode)) = .ok nodes → Gathers sys d t nodes := by
      intro f _ _ nodes found
      cases found
    exact collectWith_gathers obeys known opens ss beneath some h
  | succ depth ih =>
    have opens : ∀ f ∈ fragments d, sys.object? f.onType = Option.some t → ∀ nodes,
        collectWithin (fragments d) vars depth f.selections = .ok nodes →
          Gathers sys d t nodes := by
      intro f member condition nodes found
      obtain ⟨within, some⟩ := beneath_fragment filled member condition
      exact ih within some found
    exact collectWith_gathers obeys known opens ss beneath some h

end

/-- Where no directive leaves selections out, something is collected wherever something is
selected. -/
theorem collectWithin_finds {sys : TypeSystem} {d : Document} (obeys : Obeys sys d)
    (unconditional : Unconditional sys d) {vars : Variables} {t : TypeDef}
    (known : sys.object? t.name = some t) (filled : ∀ x ∈ d, x.isFilled = true) (depth : Nat)
    {ss : List Selection} (beneath : Beneath sys d t ss) (some : ss ≠ []) {nodes : List FieldNode}
    (h : collectWithin (fragments d) vars depth ss = .ok nodes) : Finds sys d t nodes :=
  have gathers := collectWithin_gathers obeys known filled depth beneath some h
  ⟨gathers.meant, gathers.some unconditional⟩

end EntityGraph.Validity
