import EntityGraph.Proofs.Request.Filled
import EntityGraph.Proofs.Request.Incurred

/-!
# Requests assert nothing that does not hold

Filling in walks the records of an evaluated request along the selections, and it asserts that each
selected field exists, that a record has an entry for it, and that its class has a place for what is
computed after the query. Composing saw to all of this: it looked the fields up on the same types,
and gave every record the entries of the fields that the query computes. This rests on no name being
selected twice in a row, since composing passes over the second time and filling in does not.

With this the whole of a request is covered. What it asserts fails only by the doing of the
application.
-/

set_option linter.unusedSectionVars false

namespace EntityGraph

/-- Whether no field is selected twice in one selection list, at any level. -/
inductive Apart : List Selected → Prop
  | intro {ss : List Selected} (nodup : (ss.map (·.name)).Nodup)
      (beneath : ∀ s ∈ ss, Apart s.children) : Apart ss

theorem Apart.nodup {ss : List Selected} (h : Apart ss) : (ss.map (·.name)).Nodup := by
  cases h with
  | intro nodup beneath => exact nodup

theorem Apart.beneath {ss : List Selected} (h : Apart ss) : ∀ s ∈ ss, Apart s.children := by
  cases h with
  | intro nodup beneath => exact beneath

theorem Apart.none : Apart [] := .intro List.nodup_nil fun _ h => absurd h List.not_mem_nil

theorem Apart.single {ss : List Selected} (h : Apart ss) (name : String)
    (args : List (String × Value)) : Apart [.field name args ss] :=
  .intro (by simp) fun s hs => by rwa [List.mem_singleton.1 hs]

/-- What is selected once only is selected in the same way each time. -/
theorem Apart.even {ss : List Selected} (h : Apart ss) : Even ss := by
  induction h with
  | intro nodup beneath ih =>
    refine .intro (fun s hs s' hs' same => ?_) ih
    rw [List.inj_on_of_nodup_map nodup hs hs' same]

variable {w : World} {t : TypeDecl} {ss : List Selected}

namespace Compose

/-- Beneath a field that is selected once the selections were composed as well. -/
theorem Composed.beneath (composed : Composed w t ss) (nodup : (ss.map (·.name)).Nodup)
    {s : Selected} (among : s ∈ ss) {f : FieldDecl} (found : t.findField? s.name = some f)
    (pre : f.isPost = false) : Composed w (w.schema.typeOf f.host) s.children := by
  obtain ⟨before, after, rfl⟩ := List.append_of_mem among
  obtain ⟨name, args, children⟩ := s
  refine composed.visits (.beneath found pre ?_ .here)
  intro earlier
  rw [List.map_append, List.nodup_append] at nodup
  exact nodup.2.2 name earlier name (by simp [Selected.name]) rfl

/-- The fields that were composed exist. -/
theorem Composed.found (composed : Composed w t ss) {s : Selected} (among : s ∈ ss) :
    ∃ f, t.findField? s.name = some f := by
  obtain ⟨_, rfl⟩ | ⟨ms, a, b, run⟩ := composed
  · cases among
  · obtain ⟨f, selected⟩ := members_selects run s among
    exact ⟨f, (selectedField_shape selected).1⟩

end Compose

namespace Materialize

open Compose (Composed)

/-- A record class has a place for every field that is computed after the query. -/
theorem setPost_ok {f : FieldDecl} {name : String} (knows : t.KnowsFields)
    (found : t.findField? name = some f) (post : f.isPost = true) (es : List (String × Value))
    (v : Value) : t.setPost es name v = .ok (Document.putNamed es name v) := by
  obtain ⟨members, projection, _⟩ := knows
  have named : f.name = name := by simpa using List.find?_some found
  have known : name ∈ t.postFields.map (·.name) := by
    refine List.mem_map.2 ⟨f, ?_, named⟩
    simp [TypeDecl.postFields, List.mem_of_find?_eq_some found, post]
  unfold TypeDecl.setPost TypeDecl.postMembers
  rw [projection]
  exact if_pos (by simpa using known)

section

variable {P : Fault → Prop} (sealed : Sealed w)
  (posts : ∀ t ∈ w.schema.types, ∀ f ∈ t.fields, ∀ g, f.source = .post g →
    FailsWith P (Value.call w g []))

theorem failsWith_records (entity : t.isScalar = false)
    {fill : List (String × Value) → Making (List (String × Value))}
    (one : ∀ es, Filling w t ss [] es es → FailsWith P (fill es)) {isList : Bool} {v : Value}
    (holds : Holds w false t isList ss v) : FailsWith P (records fill isList v) := by
  have single {u : Value} (holds : Holds w false t false ss u) :
      FailsWith P (records fill false u) := by
    cases holds with
    | scalar scalar => cases entity.symm.trans scalar
    | missing => exact failsWith_pure _
    | @record _ _ es nodup asked has each =>
      have filling : Filling w t ss [] es es := (Holds.record nodup asked has each).filling entity
      exact failsWith_then (one es filling) fun _ => failsWith_pure _
  cases isList with
  | false => exact single holds
  | true =>
    cases holds with
    | scalar scalar => cases entity.symm.trans scalar
    | missing => exact failsWith_pure _
    | list each =>
      refine failsWith_then (failsWith_mapM _ fun v hv => ?_) fun _ => failsWith_pure _
      exact single (each v hv)

include sealed posts

mutual

theorem failsWith_field {t : TypeDecl} (declared : t ∈ w.schema.types)
    (entity : t.isScalar = false) {ss : List Selected} (apart : Apart ss)
    (composed : Composed w t ss) {done : List String} (s : Selected) (among : s ∈ ss)
    {start es : List (String × Value)} (filling : Filling w t ss done start es) :
    FailsWith P (field w t s es) := by
  obtain ⟨f, found⟩ := composed.found among
  obtain ⟨name, args, children⟩ := s
  rw [Selected.name] at found
  rw [field]
  simp only [found]
  have member := List.mem_of_find?_eq_some found
  cases post : f.isPost with
  | true =>
    rw [if_pos rfl]
    refine failsWith_then ?_ fun v => ?_
    · unfold FieldDecl.computePost
      split
      · next g source => exact posts t declared f member g source
      · next other =>
        unfold FieldDecl.isPost at post
        split at post
        · next g source => exact absurd source (other g)
        · cases post
    · rw [setPost_ok (sealed.records t declared entity) found post]
      exact failsWith_pure _
  | false =>
    rw [if_neg Bool.false_ne_true]
    refine failsWith_ite (fun _ => failsWith_pure _) fun object => ?_
    have beneath : (w.schema.typeOf f.host).isScalar = false := by simpa using object
    -- The query computed the field, so that its entry was there from the start.
    have has : name ∈ es.map (·.1) := by
      refine filling.has _ among (.inr fun g found' => ?_)
      rw [Selected.name, found] at found'
      rw [← Option.some.inj found']
      exact post
    obtain ⟨⟨_, v⟩, here, rfl⟩ := List.mem_map.1 has
    rw [(lookup_eq_some_iff filling.nodup).2 here]
    have holds := filling.holds among found post here
    refine failsWith_then (failsWith_records beneath (fun es filling => ?_) holds)
      fun _ => failsWith_pure _
    refine failsWith_then ?_ fun _ => failsWith_pure _
    exact failsWith_fields (typeOf_mem beneath) beneath (apart.beneath _ among)
      (composed.beneath apart.nodup among found post) children (fun _ => id) filling

theorem failsWith_fields {t : TypeDecl} (declared : t ∈ w.schema.types)
    (entity : t.isScalar = false) {ss : List Selected} (apart : Apart ss)
    (composed : Composed w t ss) {done : List String} (rest : List Selected)
    (among : ∀ s ∈ rest, s ∈ ss) {start es : List (String × Value)}
    (filling : Filling w t ss done start es) :
    FailsWith P (fields w t rest es) := by
  cases rest with
  | nil => exact failsWith_pure _
  | cons s rest =>
    rw [fields]
    have first := failsWith_field declared entity apart composed s (among s (by simp)) filling
    refine failsWith_bind first fun es' a b run => ?_
    exact failsWith_fields declared entity apart composed rest (fun s hs => among s (by simp [hs]))
      (field_fills s (apart.even.evenIn w t) (among s (by simp)) filling run)

end

theorem failsWith_value {host : HostType} {ss : List Selected} (apart : Apart ss)
    (composed : Composed w (w.schema.typeOf host) ss) {isList : Bool} {v : Value}
    (holds : Holds w false (w.schema.typeOf host) isList ss v) :
    FailsWith P (value w (w.schema.typeOf host) ss isList v) := by
  unfold value
  refine failsWith_ite (fun _ => failsWith_pure _) fun object => ?_
  have entity : (w.schema.typeOf host).isScalar = false := by simpa using object
  refine failsWith_records entity (fun es filling => ?_) holds
  refine failsWith_then ?_ fun _ => failsWith_pure _
  exact failsWith_fields sealed posts (typeOf_mem entity) entity apart composed ss (fun _ => id)
    filling

end

end Materialize

namespace World

variable {context : Value}

/-- A request asserts nothing that does not hold. -/
theorem runQuery_admits (reached : w.IsReached) (completed : w.schema.completed = true)
    (context : Value) (name : String) (args : List (String × Value)) {selections : List Selected}
    (apart : Apart selections) (paging : Paging) :
    FailsWith (w.Admits context) (w.runQuery context name args selections paging) := by
  have sealed := reached.sealed completed
  have posts : ∀ t ∈ w.schema.types, ∀ f ∈ t.fields, ∀ g, f.source = .post g →
      FailsWith (w.Admits context) (Value.call w g []) :=
    fun t declared f member g source a b e run _ => .post declared member source run
  refine failsWith_bind (failsWith_outcome fun e unknown => ?_) fun q a b asked => ?_
  · unfold query at unknown
    split at unknown
    · cases unknown
    · cases unknown
      exact admits_of_not_internal rfl
  · have declared := (mem_of_query (outcome_of_run asked).1).1
    refine failsWith_bind (q.compose_admits reached completed declared args selections paging)
      fun e c d composed => ?_
    refine failsWith_bind (q.evaluate_admits reached completed declared composed)
      fun v c' d' evaluated => ?_
    obtain ⟨body, plan, m, m', _, plans, projects, _⟩ :=
      QueryDecl.evaluate_projects sealed reached.orderly composed
    obtain ⟨u, _, _, projected⟩ := projects context v c' d' evaluated
    exact Materialize.failsWith_value sealed posts apart (QueryDecl.composes composed)
      (plans.holds (apart.even.evenIn w _) projected)

/-- A complete schema with one query, which gives a text. -/
def asking (function : Value) : World :=
  ((Session.start default ⟨0, "context"⟩ 8).after
    [.addQuery .unmodified "q" (.builtin .str) function "", .complete]).world

theorem asking_isReached (function : Value) : (asking function).IsReached :=
  ⟨default, _, _, _, rfl⟩

/-- The fault of asking for the query. -/
def askedFault? (w : World) : Option Fault :=
  match (runOn (w.executeQuery .none "q" [] [] .all) ⟨0, w.trail⟩).1 with
  | .error e => some e
  | .ok _ => none

end World

end EntityGraph
