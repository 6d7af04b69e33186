import EntityGraph.Proofs.Schema.Step

/-!
# A failed completion leaves no trace

Completing a schema adds types, queries and fields, settles projections, remembers scalar types and
sets up the type system, and it can fail after any part of this. What is remembered of the schema
beforehand is less than the whole schema. It is enough, because the stages only ever put types at the
end, change nothing of an earlier type but its fields and its projection, and leave everything that
is not remembered as it was.
-/

namespace EntityGraph

namespace TypeDecl

/-- A type without its fields and its projection. -/
def head (t : TypeDecl) : TypeDecl := { t with fields := [], projection := none }

theorem eq_of_head {t u : TypeDecl} (h : u.head = t.head) :
    { u with fields := t.fields, projection := t.projection } = t := by
  cases t
  cases u
  simp_all [head]

end TypeDecl

/-- What a world still has after some steps of completing: everything but the schema, of the schema
what is neither remembered nor set back, and the types with perhaps others behind them. -/
structure Grown (w w' : World) : Prop where
  classes : w'.classes = w.classes
  objects : w'.objects = w.objects
  memory : w'.memory = w.memory
  closures : w'.closures = w.closures
  context : w'.schema.context = w.schema.context
  scalars : w'.schema.scalars = w.schema.scalars
  completed : w'.schema.completed = w.schema.completed
  types : w.schema.types.map TypeDecl.head <+: w'.schema.types.map TypeDecl.head

instance : IsPreorder World Grown where
  refl _ := ⟨rfl, rfl, rfl, rfl, rfl, rfl, rfl, List.prefix_rfl⟩
  trans _ _ _ h h' :=
    ⟨h'.classes.trans h.classes, h'.objects.trans h.objects, h'.memory.trans h.memory,
      h'.closures.trans h.closures, h'.context.trans h.context, h'.scalars.trans h.scalars,
      h'.completed.trans h.completed,
      h.types.trans h'.types⟩

/-- A change of one element leaves what it does not change of it. -/
theorem map_modify_eq {α β : Type} (xs : List α) (i : Nat) {f : α → α} (g : α → β)
    (h : ∀ x, g (f x) = g x) : (xs.modify i f).map g = xs.map g := by
  induction xs generalizing i with
  | nil => simp
  | cons x xs ih =>
    cases i with
    | zero => simp [h]
    | succ i => simp [ih]

theorem grown_changeType (w : World) (i : Nat) {f : TypeDecl → TypeDecl}
    (h : ∀ t, (f t).head = t.head) : Grown w (w.changeType i f) := by
  refine ⟨rfl, rfl, rfl, rfl, rfl, rfl, rfl, ?_⟩
  show _ <+: (w.schema.types.modify i f).map TypeDecl.head
  rewrite [map_modify_eq _ _ _ h]
  exact List.prefix_rfl

theorem Addition.grown {w w' : World} (h : Addition w w') : Grown w w' := by
  cases h with
  | number n => exact ⟨rfl, rfl, rfl, rfl, rfl, rfl, rfl, List.prefix_rfl⟩
  | type t =>
    refine ⟨rfl, rfl, rfl, rfl, rfl, rfl, rfl, ?_⟩
    exact ⟨[t.head], by simp [World.withType, World.withSchema]⟩
  | field i f => exact grown_changeType w i fun _ => rfl
  | query q => exact ⟨rfl, rfl, rfl, rfl, rfl, rfl, rfl, List.prefix_rfl⟩
  | adHoc host => exact ⟨rfl, rfl, rfl, rfl, rfl, rfl, rfl, List.prefix_rfl⟩

theorem Settlement.grown {w w' : World} (h : Settlement w w') : Grown w w' := by
  cases h with
  | addition h => exact h.grown
  | allow b => exact ⟨rfl, rfl, rfl, rfl, rfl, rfl, rfl, List.prefix_rfl⟩
  | arrangement h =>
    cases h with
    | adHoc host => exact ⟨rfl, rfl, rfl, rfl, rfl, rfl, rfl, List.prefix_rfl⟩
    | projection i p => exact grown_changeType w i fun _ => rfl
    | system sys => exact ⟨rfl, rfl, rfl, rfl, rfl, rfl, rfl, List.prefix_rfl⟩

theorem Settles.grown {w w' : World} (h : Settles w w') : Grown w w' := by
  induction h with
  | refl => exact Std.Refl.refl w
  | tail _ step ih => exact IsTrans.trans _ _ _ ih step.grown

namespace Schema

open Declaring

/-! ## Reserved names -/

theorem Arranges.allowsReserved {w w' : World} (h : Arranges w w') :
    w'.schema.allowsReserved = w.schema.allowsReserved := by
  induction h with
  | refl => rfl
  | tail _ step ih => cases step <;> exact ih

theorem addIntrospection_forbids (w : World) :
    (runOn addIntrospection w).2.schema.allowsReserved = false := by
  unfold addIntrospection
  rw [runOn_bind_ok (show runOn (allowReserved true) w = (.ok (), w.allowing true) from rfl),
    runOn_bind, runOn_tryCatch]
  generalize runOn addDescription (w.allowing true) = out
  obtain ⟨r, v⟩ := out
  cases r <;> rfl

/-- Worlds of which the second forbids reserved names if the first one does. -/
def Forbids (w w' : World) : Prop :=
  w.schema.allowsReserved = false → w'.schema.allowsReserved = false

instance : IsPreorder World Forbids where
  refl _ h := h
  trans _ _ _ h h' := h' ∘ h

/-- Reserved names are forbidden after completing if they were before, however far it got. -/
theorem keeps_settle_forbids : Keeps Forbids settle := by
  refine keeps_bind keeps_schema fun s => ?_
  refine keeps_guard ?_
  refine keeps_bind keeps_validateTypes fun _ => ?_
  refine keeps_bind (fun w _ => addIntrospection_forbids w) fun _ => ?_
  refine keeps_mono (R := Arranges)
    (fun _ _ h forbidden => (Arranges.allowsReserved h).trans forbidden) ?_
  refine keeps_bind keeps_settleProjections fun _ => ?_
  refine keeps_bind (keeps_checkAllArguments arranges_adHoc) fun _ => ?_
  exact keeps_setUpInterface

/-! ## Putting back what is remembered -/

theorem restoreTypes_eq {ts ts' : List TypeDecl}
    (h : ts.map TypeDecl.head <+: ts'.map TypeDecl.head) :
    restoreTypes ts' (ts.map (·.fields)) (ts.map (·.projection)) = ts := by
  induction ts generalizing ts' with
  | nil => cases ts' <;> rfl
  | cons t ts ih =>
    cases ts' with
    | nil => simp at h
    | cons u ts' =>
      simp only [List.map_cons, List.cons_prefix_cons] at h
      simp only [List.map_cons, restoreTypes, ih h.2, TypeDecl.eq_of_head h.1.symm]

end Schema

/-- Whatever steps of completing were taken, putting back what was remembered gives the world they
were taken from. -/
theorem Grown.restore_eq {w w' : World} (h : Grown w w') (system : w.schema.system = none)
    (reserved : w'.schema.allowsReserved = w.schema.allowsReserved) :
    w'.withSchema (Schema.restore · w.schema.snapshot) = w := by
  obtain ⟨classes, objects, memory, closures, context, scalars, completed, types⟩ := h
  have kept := Schema.restoreTypes_eq types
  cases w with
  | mk cs os m k s =>
    cases s
    cases w' with
    | mk cs' os' m' k' s' =>
      cases s'
      simp_all [World.withSchema, Schema.restore, Schema.snapshot]

/-- A world whose schema, while it is open, offers no type system and allows no reserved names. -/
def Idle (w : World) : Prop :=
  w.schema.completed = false → w.schema.system = none ∧ w.schema.allowsReserved = false

namespace Schema

/-- A schema that cannot be completed is the one it was, with everything around it. -/
theorem complete_error {w : World} (idle : Idle w) {f : Fault} {v : World}
    (h : runOn complete w = (.error f, v)) : v = w := by
  unfold complete at h
  rw [runOn_bind_ok (runOn_schema w)] at h
  cases completed : w.schema.completed with
  | true =>
    rw [if_pos completed] at h
    cases h
    rfl
  | false =>
    obtain ⟨system, reserved⟩ := idle completed
    have grown := (keeps_settle w).grown
    have forbids := keeps_settle_forbids w reserved
    rw [if_neg (by simp [completed]), runOn_bind, runOn_tryCatch] at h
    generalize runOn settle w = out at grown forbids h
    obtain ⟨r, u⟩ := out
    cases r with
    | ok _ => cases h
    | error e =>
      have same := grown.restore_eq system (forbids.trans reserved.symm)
      cases h
      exact same

end Schema

end EntityGraph
