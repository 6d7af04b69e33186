import EntityGraph.Proofs.Request.Composed

/-!
# Only the first of several selections counts

A field may be selected several times among the fields of a record, with different fields beneath
it. Composing keeps the first of these selections. What is composed is therefore what would be
composed if the others were not there, at every level: what is selected beneath them is in no
record.

Filling in records looks at all of the selections again, and so it may look for an entry that was
never composed.
-/

namespace EntityGraph

mutual

def Selected.once : Selected → Selected
  | .field name args children => .field name args (onceAll [] children)

/-- Selected fields without those that repeat a name or have one of these names. A field that stays
has no repeated ones beneath it either. -/
def onceAll (seen : List String) : List Selected → List Selected
  | [] => []
  | s :: ss =>
    if seen.contains s.name then onceAll seen ss else s.once :: onceAll (seen ++ [s.name]) ss

end

theorem Selected.once_name (s : Selected) : s.once.name = s.name := by
  cases s with
  | field _ _ _ => rw [once, Selected.name, Selected.name]

theorem onceAll_isEmpty (ss : List Selected) : (onceAll [] ss).isEmpty = ss.isEmpty := by
  cases ss with
  | nil => rw [onceAll]
  | cons s ss => simp [onceAll]

namespace Compose

variable {w : World}

theorem planWith_once {t : TypeDecl} {isList isEmpty : Bool} {x y : Making (List Member)}
    (same : ∀ ms a b, runOn x a = (.ok ms, b) → runOn y a = (.ok ms, b)) {plan : Plan}
    {a b : Trail} (h : runOn (planWith t isList isEmpty x) a = (.ok plan, b)) :
    runOn (planWith t isList isEmpty y) a = (.ok plan, b) := by
  unfold planWith at h ⊢
  by_cases scalar : t.isScalar = true
  · rw [if_pos scalar] at h ⊢
    exact h
  · rw [if_neg scalar] at h ⊢
    by_cases empty : isEmpty = true
    · rw [if_pos empty] at h
      cases h
    · rw [if_neg empty] at h ⊢
      split at h
      · cases h
      · next projected =>
        rw [if_neg projected]
        obtain ⟨ms, m, drawn, h⟩ := bind_eq_ok h
        rw [runOn_bind_ok (same _ _ _ drawn)]
        exact h

/-- A selected field is passed over if it is computed later or was seen, and taken otherwise. -/
theorem member_passes {t : TypeDecl} {seen : List String} {s : Selected} {o : Option Member}
    {a b : Trail} (h : runOn (member w t seen s) a = (.ok o, b)) :
    ∃ f, t.findField? s.name = some f
      ∧ ((f.isPost = true ∨ s.name ∈ seen) ∧ o = none ∧ a = b
        ∨ ¬(f.isPost = true ∨ s.name ∈ seen) ∧ o.isSome = true) := by
  obtain ⟨name, args, children⟩ := s
  rw [member] at h
  obtain ⟨f, m, selected, h⟩ := bind_eq_ok h
  obtain ⟨fits, rfl⟩ := outcome_of_run selected
  refine ⟨f, (selectedField_ok fits).1, ?_⟩
  have passes : (f.isPost || seen.contains name) = true ↔ f.isPost = true ∨ name ∈ seen := by simp
  split at h
  · next passed =>
    cases h
    exact .inl ⟨passes.1 passed, rfl, rfl⟩
  · next taken =>
    obtain ⟨_, _, _, h⟩ := bind_eq_ok h
    obtain ⟨_, _, _, h⟩ := bind_eq_ok h
    cases h
    exact .inr ⟨fun passed => taken (passes.2 passed), rfl⟩

mutual

theorem member_once {t : TypeDecl} (seen : List String) (s : Selected) {o : Option Member}
    {a b : Trail} (h : runOn (member w t seen s) a = (.ok o, b)) :
    runOn (member w t seen s.once) a = (.ok o, b) := by
  obtain ⟨name, args, children⟩ := s
  rw [member] at h
  rw [Selected.once, member, onceAll_isEmpty]
  obtain ⟨f, m, selected, h⟩ := bind_eq_ok h
  rw [runOn_bind_ok selected]
  split at h
  · next passed =>
    rw [if_pos passed]
    exact h
  · next taken =>
    rw [if_neg taken]
    obtain ⟨⟨entity, body⟩, m', lent, h⟩ := bind_eq_ok h
    obtain ⟨plan, m'', drawn, h⟩ := bind_eq_ok h
    have beneath (ms : List Member) (a b : Trail)
        (run : runOn (members w (w.schema.typeOf f.host) [] children) a = (.ok ms, b)) :
        runOn (members w (w.schema.typeOf f.host) [] (onceAll [] children)) a = (.ok ms, b) :=
      members_once children (by simp) (by simp) run
    rw [runOn_bind_ok lent, runOn_bind_ok (planWith_once beneath drawn)]
    exact h

/-- What selected fields are as members, they are without those that repeat a name. A name that was
passed over may have been seen before too, if its field is computed later. -/
theorem members_once {t : TypeDecl} {seen seen' : List String} (ss : List Selected)
    (kept : ∀ n ∈ seen, n ∈ seen')
    (others : ∀ n ∈ seen', n ∈ seen ∨ ∃ f, t.findField? n = some f ∧ f.isPost = true)
    {ms : List Member} {a b : Trail} (h : runOn (members w t seen ss) a = (.ok ms, b)) :
    runOn (members w t seen (onceAll seen' ss)) a = (.ok ms, b) := by
  cases ss with
  | nil =>
    rw [onceAll]
    exact h
  | cons s rest =>
    rw [members] at h
    obtain ⟨o, m, first, h⟩ := bind_eq_ok h
    obtain ⟨f, found, which⟩ := member_passes first
    rw [onceAll]
    -- A repeated field is not drawn: composing saw it, or computes it later.
    by_cases again : s.name ∈ seen'
    · rw [if_pos (by simpa using again)]
      obtain ⟨_, rfl, rfl⟩ | ⟨taken, _⟩ := which
      · exact members_once rest kept others h
      · rcases others _ again with before | ⟨g, same, post⟩
        · exact absurd (.inr before) taken
        · cases found.symm.trans same
          exact absurd (.inl post) taken
    · rw [if_neg (by simpa using again), members, runOn_bind_ok (member_once seen s first),
        Selected.once_name]
      have kept' : ∀ n ∈ seen, n ∈ seen' ++ [s.name] := fun n hn => by simp [kept n hn]
      cases o with
      | none =>
        obtain ⟨passed, _⟩ | ⟨_, some⟩ := which
        · refine members_once rest kept' (fun n hn => ?_) h
          rcases List.mem_append.1 hn with before | this
          · exact others n before
          · rw [List.mem_singleton.1 this]
            exact .inr ⟨f, found, passed.resolve_right fun before => again (kept _ before)⟩
        · cases some
      | some member =>
        obtain ⟨ms', m', later, h⟩ := bind_eq_ok h
        have once : runOn (members w t (seen ++ [s.name]) (onceAll (seen' ++ [s.name]) rest)) m
            = (.ok ms', m') := by
          refine members_once rest (fun n hn => ?_) (fun n hn => ?_) later
          · rcases List.mem_append.1 hn with before | this
            · exact kept' n before
            · exact List.mem_append_right _ this
          · rcases List.mem_append.1 hn with before | this
            · exact (others n before).imp_left (List.mem_append_left _)
            · exact .inl (List.mem_append_right _ this)
        rw [runOn_bind_ok once]
        exact h

end

end Compose

namespace QueryDecl

end QueryDecl

/-- The kind of the fault of a document, if it has one. -/
def World.faultKind (w : World) (source : String) (vars : Document.Variables) : Option FaultKind :=
  match (runOn (w.executeDocument .none source vars) ⟨0, w.trail⟩).1 with
  | .ok _ => none
  | .error e => some e.kind

end EntityGraph
