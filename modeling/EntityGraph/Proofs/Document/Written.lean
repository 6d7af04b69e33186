import EntityGraph.Document.TypePhrase

/-!
# Documents as they are written

The grammar has no empty braces: whatever opens a selection set selects something. Only the node of
a document can be built without any selection, so everything that is read from a text is filled.
What a phrase reads is shown from the phrases it consists of, whatever tokens come next.
-/

namespace EntityGraph.Document

mutual

/-- Whether everything inside a selection that opens a selection set selects something. -/
def Selection.isFilled : Selection → Bool
  | .field _ _ _ _ ss => areFilled ss
  | .spread .. => true
  | .inline _ _ ss => !ss.isEmpty && areFilled ss

/-- Whether that holds inside several selections. -/
def areFilled : List Selection → Bool
  | [] => true
  | s :: ss => s.isFilled && areFilled ss

end

/-- Whether every selection set inside a definition selects something. -/
def Definition.isFilled : Definition → Bool
  | .operation o => !o.selections.isEmpty && areFilled o.selections
  | .fragment f => !f.selections.isEmpty && areFilled f.selections
  | .types => true

theorem areFilled_iff {ss : List Selection} :
    areFilled ss = true ↔ ∀ s ∈ ss, s.isFilled = true := by
  induction ss with
  | nil => simp [areFilled]
  | cons s ss ih => simp [areFilled, ih]

namespace Phrase

variable {α β : Type} {P : α → Prop} {Q : β → Prop}

/-- Whether whatever a phrase reads has a property. -/
def Yields (P : α → Prop) (p : Phrase α) : Prop :=
  ∀ ts a rest, p.run ts = some (a, rest) → P a

theorem yields_pure {a : α} (h : P a) : Yields P (pure a) := by
  intro ts b rest run
  cases run
  exact h

theorem yields_unexpected : Yields P unexpected := by
  intro ts a rest run
  cases run

/-- What is read in two steps is read in the second one, which knows what the first one read. -/
theorem yields_bind {p : Phrase β} {f : β → Phrase α} (hp : Yields Q p)
    (hf : ∀ b, Q b → Yields P (f b)) : Yields P (p >>= f) := by
  intro ts a rest run
  rw [StateT.run_bind] at run
  obtain ⟨⟨b, middle⟩, first, second⟩ := Option.bind_eq_some_iff.1 run
  exact hf b (hp ts b middle first) middle a rest second

theorem yields_any (p : Phrase β) : Yields (fun _ => True) p := fun _ _ _ _ => trivial

theorem yields_then {p : Phrase β} {f : β → Phrase α} (hf : ∀ b, Yields P (f b)) :
    Yields P (p >>= f) :=
  yields_bind (yields_any p) fun b _ => hf b

theorem yields_ite {c : Prop} [Decidable c] {p q : Phrase α} (hp : Yields P p)
    (hq : Yields P q) : Yields P (if c then p else q) := by
  split
  · exact hp
  · exact hq

theorem yields_itemsWithin (close : Token) {item : Phrase α} (h : Yields P item) (fuel : Nat) :
    Yields (fun xs => ∀ x ∈ xs, P x) (itemsWithin close item fuel) := by
  induction fuel with
  | zero => exact yields_unexpected
  | succ fuel ih =>
    refine yields_then fun closes => yields_ite (yields_pure ?_) ?_
    · intro x hx
      cases hx
    · refine yields_bind h fun x hx => yields_bind ih fun xs hxs => yields_pure ?_
      intro y hy
      rcases List.mem_cons.1 hy with rfl | hy
      · exact hx
      · exact hxs y hy

/-- Items between two tokens, of which there is at least one. -/
theorem yields_many (start close : Token) {item : Phrase α} (h : Yields P item) :
    Yields (fun xs => xs ≠ [] ∧ ∀ x ∈ xs, P x) (many start close item) := by
  refine yields_then fun _ => yields_bind h fun x hx => yields_then fun fuel => ?_
  refine yields_bind (yields_itemsWithin close h fuel) fun xs hxs => yields_pure ⟨by simp, ?_⟩
  intro y hy
  rcases List.mem_cons.1 hy with rfl | hy
  · exact hx
  · exact hxs y hy

/-- What a selection set is known to hold. -/
def Holds (ss : List Selection) : Prop := ss ≠ [] ∧ ∀ s ∈ ss, s.isFilled = true

theorem Holds.filled {ss : List Selection} (h : Holds ss) :
    (!ss.isEmpty && areFilled ss) = true := by
  rw [Bool.and_eq_true]
  exact ⟨by simpa using h.1, areFilled_iff.2 h.2⟩

theorem yields_selection (levels : Nat) {set : Phrase (List Selection)} (h : Yields Holds set) :
    Yields (fun s => s.isFilled = true) (selection levels set) := by
  have inline (onType : Option String) (ds : List Directive) :
      Yields (fun s => s.isFilled = true) (do return Selection.inline onType ds (← set)) := by
    refine yields_bind h fun ss hss => yields_pure ?_
    rw [Selection.isFilled]
    exact hss.filled
  refine yields_then fun spreads => yields_ite ?_ ?_
  · refine yields_then fun conditional => yields_ite ?_ ?_
    · exact yields_then fun onType => yields_then fun ds => inline (some onType) ds
    · refine yields_then fun next => ?_
      split
      · exact yields_then fun n => yields_then fun ds => yields_pure rfl
      · exact yields_then fun ds => inline none ds
  · refine yields_then fun (label, n) => yields_then fun args => yields_then fun ds => ?_
    refine yields_then fun opens => yields_ite ?_ (yields_pure rfl)
    refine yields_bind h fun ss hss => yields_pure ?_
    rw [Selection.isFilled]
    exact areFilled_iff.2 hss.2

/-- The levels that are left bound how deep a selection set is read. -/
theorem yields_selectionSetWithin (levels : Nat) : Yields Holds (selectionSetWithin levels) := by
  induction levels with
  | zero => exact yields_unexpected
  | succ levels ih => exact yields_many _ _ (yields_selection levels ih)

theorem yields_operation :
    Yields (fun o => (Definition.operation o).isFilled = true) operation := by
  have filled {kind : OperationKind} {n : Option String} {vs : List VariableDef}
      {ds : List Directive} :
      Yields (fun o => (Definition.operation o).isFilled = true)
        (do return ⟨kind, n, vs, ds, ← selectionSet⟩) :=
    yields_bind (yields_selectionSetWithin _) fun ss hss => yields_pure hss.filled
  refine yields_then fun opens => yields_ite filled ?_
  refine yields_then fun kind => yields_then fun next => ?_
  split
  · refine yields_then fun _ => yields_then fun n => yields_then fun vs => ?_
    exact yields_then fun ds => filled
  · refine yields_then fun n => yields_then fun vs => ?_
    exact yields_then fun ds => filled

theorem yields_fragment : Yields (fun f => (Definition.fragment f).isFilled = true) fragment := by
  refine yields_then fun _ => yields_then fun n => yields_then fun _ => ?_
  refine yields_then fun onType => yields_then fun ds => ?_
  exact yields_bind (yields_selectionSetWithin _) fun ss hss => yields_pure hss.filled

theorem yields_definition : Yields (fun d => d.isFilled = true) definition := by
  have operation :
      Yields (fun d => d.isFilled = true) (do return Definition.operation (← operation)) :=
    yields_bind yields_operation fun o ho => yields_pure ho
  have fragment :
      Yields (fun d => d.isFilled = true) (do return Definition.fragment (← fragment)) :=
    yields_bind yields_fragment fun f hf => yields_pure hf
  refine yields_then fun opens => yields_ite operation ?_
  refine yields_then fun next => ?_
  split
  · refine yields_ite ?_ (yields_ite ?_ ?_)
    · exact yields_then fun _ => yields_pure rfl
    · exact yields_then fun _ => yields_pure rfl
    · exact yields_then fun _ => yields_ite fragment operation
  · exact yields_unexpected

theorem yields_definitionsWithin (fuel : Nat) :
    Yields (fun ds => ∀ d ∈ ds, d.isFilled = true) (definitionsWithin fuel) := by
  induction fuel with
  | zero => exact yields_unexpected
  | succ fuel ih =>
    refine yields_then fun next => ?_
    split
    · exact yields_pure (by simp)
    · refine yields_bind yields_definition fun d hd => yields_bind ih fun ds hds => ?_
      exact yields_pure (by simpa using ⟨hd, hds⟩)

theorem yields_document : Yields (fun ds => ∀ d ∈ ds, d.isFilled = true) document := by
  refine yields_bind yields_definition fun d hd => yields_then fun fuel => ?_
  refine yields_bind (yields_definitionsWithin fuel) fun ds hds => ?_
  exact yields_pure (by simpa using ⟨hd, hds⟩)

end Phrase

/-- Every definition of a document that was read is filled. -/
theorem parse_isFilled {source : String} {d : Document} (h : parse source = some d) :
    ∀ x ∈ d, x.isFilled = true := by
  obtain ⟨⟨ds, rest⟩, run, same⟩ := Option.map_eq_some_iff.1 h
  cases same
  exact Phrase.yields_document _ _ _ run

end EntityGraph.Document
