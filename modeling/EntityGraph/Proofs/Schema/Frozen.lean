import EntityGraph.Proofs.Schema.Reached

/-!
# Complete schemas are frozen

A complete schema refuses every declaration before anything is done for it, so no function of the
application is called and nothing is left behind. Requests change what was made and assigned, and
describing a host type remembers it; the declarations stay as they were.
-/

namespace EntityGraph

/-- Worlds of which the second has the schema of the first, apart from the numbers that were used and
the scalar types that are remembered. -/
def SameSchema (w w' : World) : Prop :=
  ∃ supply adHoc, w'.schema = { w.schema with supply, adHoc }

instance : IsPreorder World SameSchema where
  refl w := ⟨w.schema.supply, w.schema.adHoc, rfl⟩
  trans := by
    rintro w w' w'' ⟨n, hosts, same⟩ ⟨n', hosts', same'⟩
    exact ⟨n', hosts', by rw [same', same]⟩

theorem SameSchema.completed {w w' : World} (h : SameSchema w w') :
    w'.schema.completed = w.schema.completed := by
  obtain ⟨n, hosts, same⟩ := h
  rw [same]

theorem Declaration.sameSchema {w w' : World} (step : Declaration w w')
    (completed : w.schema.completed = true) : SameSchema w w' := by
  cases step with
  | addition step =>
    cases step with
    | number n => exact ⟨n, w.schema.adHoc, rfl⟩
    | adHoc host => exact ⟨w.schema.supply, w.schema.adHoc ++ [host], rfl⟩
    | type t isOpen => simp [completed] at isOpen
    | field i f isOpen => simp [completed] at isOpen
    | query q isOpen => simp [completed] at isOpen
  | left t => exact ⟨t.supply, w.schema.adHoc, rfl⟩
  | scalar e isOpen => simp [completed] at isOpen

theorem Declares.sameSchema {w w' : World} (steps : Declares w w')
    (completed : w.schema.completed = true) : SameSchema w w' := by
  induction steps with
  | refl => exact Std.Refl.refl w
  | tail _ step ih =>
    refine IsTrans.trans _ _ _ ih (step.sameSchema ?_)
    rw [ih.completed, completed]

/-- Declarations leave an open schema open. -/
theorem Declares.completed {w w' : World} (steps : Declares w w') :
    w'.schema.completed = w.schema.completed := by
  induction steps with
  | refl => rfl
  | tail _ step ih =>
    rw [← ih]
    cases step with
    | addition step => cases step <;> rfl
    | left t => rfl
    | scalar e => rfl

namespace Session

theorem sameSchema_act (e : Event) {s : Session} (completed : s.world.schema.completed = true) :
    SameSchema s.world (runOn e.act s).2.world := by
  have idle : Idle s.world := by simp [Idle, completed]
  obtain steps | ⟨isOpen, _⟩ := act_cases e s idle
  · exact Declares.sameSchema steps completed
  · rw [completed] at isOpen
    cases isOpen

/-- Whatever happens to a complete schema, its declarations stay as they are. -/
theorem sameSchema_after (es : List Event) {s : Session}
    (completed : s.world.schema.completed = true) : SameSchema s.world (s.after es).world := by
  induction es generalizing s with
  | nil => exact Std.Refl.refl s.world
  | cons e es ih =>
    have first := sameSchema_act e completed
    exact IsTrans.trans _ _ _ first (ih (first.completed.trans completed))

end Session

/-! ## Refused declarations -/

namespace Event

/-- Whether an event would change what is declared. -/
def isDeclaration : Event → Bool
  | describe _ | text | execute .. | document .. | compute _ => false
  | _ => true

/-- The host type of the type that a field is to be declared on. -/
def owner? : Event → Option HostType
  | addField owner .. | addFieldWithArgs owner .. | addPropertyField owner .. | addAllFields owner
  | addPostField owner .. => some owner
  | _ => none

end Event

namespace Schema

open Declaring

theorem runOn_getType {w : World} {host : HostType} {i : Nat}
    (found : w.schema.findType? host = some i) : runOn (getType host) w = (.ok i, w) := by
  unfold getType
  rw [runOn_bind_ok (runOn_schema w), found]
  rfl

theorem runOn_getType_none {w : World} {host : HostType}
    (none : w.schema.findType? host = none) :
    runOn (getType host) w = (.error (.typeUnknown host), w) := by
  unfold getType
  rw [runOn_bind_ok (runOn_schema w), none]
  rfl

/-- What follows the check that a schema is open is not done for a complete one. -/
theorem runOn_refused {α : Type} {w : World} (completed : w.schema.completed = true)
    (change : Change) (x : Declaring α) :
    runOn (do ensureOpen change; x) w = (.error (.completedFor change), w) := by
  rw [runOn_bind, runOn_ensureOpen, completed]
  rfl

theorem runOn_complete_refused {w : World} (completed : w.schema.completed = true) :
    runOn complete w = (.error .completedTwice, w) := by
  unfold complete
  rw [runOn_bind_ok (runOn_schema w), if_pos completed]
  rfl

end Schema

namespace Session

open Schema Declaring

/-- What is refused in a world is refused in the session. -/
theorem act_refused {α β : Type} {s : Session} {x : Declaring α} (g : α → β) {f : Fault}
    (h : runOn x s.world = (.error f, s.world)) :
    runOn (g <$> declaring x) s = (.error f, s) := by
  rw [runOn_map, runOn_declaring, h]
  rfl

/-- A complete schema refuses a declaration, and this changes nothing at all. Only the type that a
field is to be declared on is looked up before. -/
theorem declaration_refused {s : Session} (completed : s.world.schema.completed = true) {e : Event}
    (declares : e.isDeclaration = true) :
    ∃ f, runOn e.act s = (.error f, s)
      ∧ (f.kind = .lifecycle
        ∨ ∃ host, e.owner? = some host ∧ s.world.schema.findType? host = none) := by
  have onType {α β : Type} {host : HostType} (g : α → β) (change : Change)
      (x : Nat → Declaring α) (is : e.owner? = some host) :
      ∃ f, runOn (g <$> declaring (do
            let i ← getType host
            ensureOpen change
            x i)) s = (.error f, s)
        ∧ (f.kind = .lifecycle
          ∨ ∃ host, e.owner? = some host ∧ s.world.schema.findType? host = none) := by
    cases found : s.world.schema.findType? host with
    | none =>
      refine ⟨_, act_refused g (runOn_bind_error (runOn_getType_none found)), ?_⟩
      exact .inr ⟨host, is, found⟩
    | some i =>
      refine ⟨.completedFor change, act_refused g ?_, .inl rfl⟩
      rw [runOn_bind_ok (runOn_getType found)]
      exact runOn_refused completed _ _
  cases e with
  | addType host name description =>
    exact ⟨_, act_refused _ (runOn_refused completed (.type host) _), .inl rfl⟩
  | addQuery mode name host function description =>
    exact ⟨_, act_refused _ (runOn_refused completed (.query name) _), .inl rfl⟩
  | addQueryWithArgs mode name host shape factory description =>
    exact ⟨_, act_refused _ (runOn_refused completed (.query name) _), .inl rfl⟩
  | addScalar kind translate name host description =>
    exact ⟨_, act_refused _ (runOn_refused completed (.scalar kind) _), .inl rfl⟩
  | addField owner name function host isList description => exact onType _ (.field name) _ rfl
  | addFieldWithArgs owner name shape factory host isList description =>
    exact onType _ (.field name) _ rfl
  | addPropertyField owner selector description => exact onType _ .propertyField _ rfl
  | addAllFields owner => exact onType _ .allFields _ rfl
  | addPostField owner name function hint host description => exact onType _ (.field name) _ rfl
  | complete => exact ⟨_, act_refused _ (runOn_complete_refused completed), .inl rfl⟩
  | describe host => cases declares
  | text => cases declares
  | execute context name args selections paging => cases declares
  | document context source vars => cases declares
  | compute x => cases declares

/-- Refused declarations leave everything as it is. -/
theorem after_refused {es : List Event} {s : Session}
    (completed : s.world.schema.completed = true)
    (declare : ∀ e ∈ es, e.isDeclaration = true) : s.after es = s := by
  induction es with
  | nil => rfl
  | cons e es ih =>
    obtain ⟨f, refused, _⟩ := declaration_refused completed (declare e (by simp))
    rw [after, refused]
    exact ih fun e' he' => declare e' (by simp [he'])

end Session

end EntityGraph
