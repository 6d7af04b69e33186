import EntityGraph.Proofs.Schema.History
import Mathlib.Data.List.Induction

/-!
# Reached worlds

A world is reached if it stands at the end of a history that starts with an empty schema. What holds
of all reached worlds is shown by induction on the history, and the induction has three cases only:
the empty schema, one step of a declaration, and one successful completion.

In a reached world no two types have one host type or one name, and as long as the schema is open no
type has a projection.
-/

namespace EntityGraph

namespace World

/-- Whether a world stands at the end of a history. -/
def IsReached (w : World) : Prop :=
  ∃ v context supply past, w = ((Session.start v context supply).after past).world

end World

theorem Session.after_append (s : Session) (es es' : List Event) :
    s.after (es ++ es') = (s.after es).after es' := by
  induction es generalizing s with
  | nil => rfl
  | cons e es ih => exact ih _

/-- Induction on the history of a world. -/
theorem reached_induction {P : World → Prop}
    (empty : ∀ v context supply, P (Session.start v context supply).world)
    (declaration : ∀ w w', Declaration w w' → P w → P w')
    (completion : ∀ w u, w.IsReached → w.schema.completed = false → P w →
      runOn Schema.settle w = (.ok (), u) → P u.closed)
    {w : World} (h : w.IsReached) : P w := by
  obtain ⟨v, context, supply, past, rfl⟩ := h
  induction past using List.reverseRecOn with
  | nil => exact empty ..
  | append_singleton es e ih =>
    rw [Session.after_append]
    show P (runOn e.act _).2.world
    have idle := Session.idle_after _ es (Session.idle_start v context supply)
    obtain declared | ⟨isOpen, u, settled, closed⟩ := Session.act_cases e _ idle
    · generalize (runOn e.act _).2.world = v at declared ⊢
      induction declared with
      | refl => exact ih
      | tail _ step ih => exact declaration _ _ step ih
    · rw [closed]
      exact completion _ u ⟨_, _, _, es, rfl⟩ isOpen ih settled

/-- Induction on what happened to a world since its schema was completed. -/
theorem completed_induction {P : World → Prop}
    (declaration : ∀ w w', Declaration w w' → w.schema.completed = true → P w → P w')
    (completion : ∀ w u, w.IsReached → w.schema.completed = false →
      runOn Schema.settle w = (.ok (), u) → P u.closed)
    {w : World} (h : w.IsReached) (completed : w.schema.completed = true) : P w := by
  refine reached_induction (P := fun w => w.schema.completed = true → P w) ?_ ?_ ?_ h completed
  · exact fun _ _ _ => nofun
  · intro w w' step ih completed
    -- No declaration completes a schema, so it was complete before the step.
    have before : w.schema.completed = true := by
      cases step with
      | addition step => cases step <;> exact completed
      | left t => exact completed
      | scalar e => exact completed
    exact declaration w w' step before (ih before)
  · exact fun w u reached isOpen _ settled _ => completion w u reached isOpen settled

/-! ## Distinct types -/

/-- Types of which no two have one host type or one name. -/
structure Orderly (ts : List TypeDecl) : Prop where
  hosts : (ts.map (·.host)).Nodup
  names : (ts.map (·.name)).Nodup

theorem Orderly.modify {ts : List TypeDecl} (h : Orderly ts) (i : Nat) {f : TypeDecl → TypeDecl}
    (host : ∀ t, (f t).host = t.host) (name : ∀ t, (f t).name = t.name) :
    Orderly (ts.modify i f) := by
  constructor
  · rw [map_modify_eq _ _ _ host]
    exact h.hosts
  · rw [map_modify_eq _ _ _ name]
    exact h.names

theorem nodup_map_append {α β : Type} {xs : List α} {g : α → β} {y : α}
    (h : (xs.map g).Nodup) (free : ∀ x ∈ xs, g x ≠ g y) : ((xs ++ [y]).map g).Nodup := by
  rw [List.map_append, List.nodup_append]
  refine ⟨h, by simp, ?_⟩
  intro a ha b hb same
  obtain ⟨x, hx, rfl⟩ := List.mem_map.1 ha
  rw [List.map_singleton, List.mem_singleton] at hb
  exact free x hx (same.trans hb)

theorem find?_of_nodup {α : Type} {xs : List α} {key : α → String} (h : (xs.map key).Nodup) {x : α}
    (hx : x ∈ xs) : xs.find? (fun y => key y == key x) = some x := by
  induction xs with
  | nil => cases hx
  | cons y ys ih =>
    rw [List.map_cons, List.nodup_cons] at h
    rcases List.mem_cons.1 hx with rfl | hx
    · exact List.find?_cons_of_pos (by simp)
    · have other : key y ≠ key x := fun same => h.1 (same ▸ List.mem_map_of_mem hx)
      rw [List.find?_cons_of_neg (by simpa using other)]
      exact ih h.2 hx

theorem Orderly.append {ts : List TypeDecl} (h : Orderly ts) {t : TypeDecl}
    (host : ∀ u ∈ ts, u.host ≠ t.host) (name : ∀ u ∈ ts, u.name ≠ t.name) :
    Orderly (ts ++ [t]) :=
  ⟨nodup_map_append h.hosts host, nodup_map_append h.names name⟩

theorem Addition.orderly {w w' : World} (step : Addition w w') (h : Orderly w.schema.types) :
    Orderly w'.schema.types := by
  cases step with
  | number n => exact h
  | type t isOpen host name =>
    refine h.append (fun u hu same => ?_) name
    rw [Schema.findType?, List.findIdx?_eq_none_iff] at host
    simp at host
    exact host u hu same
  | field i f => exact h.modify i (fun _ => rfl) fun _ => rfl
  | query q => exact h
  | adHoc host => exact h

theorem Declaration.orderly {w w' : World} (step : Declaration w w')
    (h : Orderly w.schema.types) : Orderly w'.schema.types := by
  cases step with
  | addition step => exact step.orderly h
  | left t => exact h
  | scalar e => exact h

theorem Settlement.orderly {w w' : World} (step : Settlement w w')
    (h : Orderly w.schema.types) : Orderly w'.schema.types := by
  cases step with
  | addition step => exact step.orderly h
  | allow b => exact h
  | arrangement step =>
    cases step with
    | adHoc host => exact h
    | projection i p => exact h.modify i (fun _ => rfl) fun _ => rfl
    | system sys => exact h

theorem Settles.orderly {w w' : World} (steps : Settles w w') (h : Orderly w.schema.types) :
    Orderly w'.schema.types := by
  induction steps with
  | refl => exact h
  | tail _ step ih => exact step.orderly ih

theorem World.IsReached.orderly {w : World} (h : w.IsReached) : Orderly w.schema.types := by
  refine reached_induction (P := fun w => Orderly w.schema.types) ?_ ?_ ?_ h
  · exact fun _ _ _ => ⟨List.nodup_nil, List.nodup_nil⟩
  · exact fun _ _ step h => step.orderly h
  · intro w u _ _ h settled
    have steps : Settles w u := keeps_run Schema.keeps_settle settled
    exact (Settles.orderly steps h : Orderly u.schema.types)

theorem Schema.typeOf_host (s : Schema) (host : HostType) : (s.typeOf host).host = host := by
  unfold typeOf typeRefOf
  cases declared : s.findType? host with
  | some i =>
    obtain ⟨bound, is, _⟩ := List.findIdx?_eq_some_iff_getElem.1 declared
    show (s.types.getD i default).host = host
    rw [List.getD_eq_getElem?_getD, List.getElem?_eq_getElem bound]
    simpa using is
  | none =>
    cases scalar : s.scalarOf? host with
    | none => rfl
    | some i =>
      obtain ⟨bound, is, _⟩ := List.findIdx?_eq_some_iff_getElem.1 scalar
      show (s.scalars.getD i default).host = host
      rw [List.getD_eq_getElem?_getD, List.getElem?_eq_getElem bound]
      simpa using is

/-- A type that is no scalar is a declared one. -/
theorem typeOf_mem {s : Schema} {host : HostType} (h : (s.typeOf host).isScalar = false) :
    s.typeOf host ∈ s.types := by
  unfold Schema.typeOf Schema.typeRefOf at h ⊢
  split at h
  · next i found =>
    rw [Schema.findType?, List.findIdx?_eq_some_iff_getElem] at found
    obtain ⟨bound, _⟩ := found
    show s.types.getD i default ∈ s.types
    rw [List.getD_eq_getElem?_getD, List.getElem?_eq_getElem bound]
    exact List.getElem_mem bound
  · split at h <;> cases h

/-! ## Open schemas have no projections -/

/-- A world none of whose types has a projection. -/
def Unprojected (w : World) : Prop := ∀ t ∈ w.schema.types, t.projection = none

/-- What is in a list after a change of one element was there before, or is that element changed. -/
theorem mem_modify {α : Type} {xs : List α} {i : Nat} {f : α → α} {y : α}
    (h : y ∈ xs.modify i f) : y ∈ xs ∨ ∃ x, xs[i]? = some x ∧ y = f x := by
  obtain ⟨j, hj, rfl⟩ := List.getElem_of_mem h
  have bound : j < xs.length := by simpa using hj
  rw [List.getElem_modify]
  split
  · next same => exact .inr ⟨xs[j], by rw [same, List.getElem?_eq_getElem bound], rfl⟩
  · exact .inl (List.getElem_mem _)

theorem Addition.unprojected {w w' : World} (step : Addition w w') (h : Unprojected w) :
    Unprojected w' := by
  cases step with
  | type t isOpen host name fields projection =>
    intro u hu
    rcases List.mem_append.1 hu with hu | hu
    · exact h u hu
    · rw [List.mem_singleton.1 hu, projection]
  | field i f =>
    intro u hu
    obtain hu | ⟨t, ht, rfl⟩ := mem_modify hu
    · exact h u hu
    · exact h t (List.mem_of_getElem? ht)
  | number n => exact h
  | query q => exact h
  | adHoc host => exact h

theorem Adds.unprojected {w w' : World} (steps : Adds w w') (h : Unprojected w) :
    Unprojected w' := by
  induction steps with
  | refl => exact h
  | tail _ step ih => exact step.unprojected ih

theorem World.IsReached.unprojected {w : World} (h : w.IsReached) :
    w.schema.completed = false → Unprojected w := by
  refine reached_induction (P := fun w => w.schema.completed = false → Unprojected w) ?_ ?_ ?_ h
  · intro _ _ _ _ t ht
    simp [Session.start, Schema.empty] at ht
  · intro w w' step ih
    cases step with
    | addition step =>
      intro isOpen
      refine step.unprojected (ih ?_)
      cases step <;> exact isOpen
    | left t => exact ih
    | scalar e => exact ih
  · exact fun _ _ _ _ _ _ => nofun

end EntityGraph
