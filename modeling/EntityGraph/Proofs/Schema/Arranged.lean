import EntityGraph.Proofs.Schema.Outline
import EntityGraph.Proofs.Fails

/-!
# When the stages of completing succeed

Describing a host type, and making the record class of a valid type, never fails. So the stages of
completing succeed exactly if every type is valid, every argument is a scalar, and the type system
can be drawn; what they leave behind has the same entries.
-/

namespace EntityGraph

/-- Whether every type has fields exactly if it is no scalar. -/
def Schema.IsValid (s : Schema) : Prop := ∀ t ∈ s.types, t.validate = .ok ()

/-! ## Arranging keeps the entries -/

theorem Arranges.has {w u : World} (steps : Arranges w u) (x : Entry) :
    u.schema.Has x ↔ w.schema.Has x := by
  induction steps with
  | refl => exact Iff.rfl
  | tail _ step ih =>
    refine Iff.trans ?_ ih
    cases step with
    | adHoc host => exact Schema.has_congr rfl rfl x
    | projection i p => exact Schema.has_projected _ i p x
    | system sys => exact Schema.has_congr rfl rfl x

theorem Arranges.valid {w u : World} (steps : Arranges w u) :
    u.schema.IsValid ↔ w.schema.IsValid := by
  induction steps with
  | refl => exact Iff.rfl
  | @tail v _ _ step ih =>
    refine Iff.trans ?_ ih
    cases step with
    | adHoc host => exact Iff.rfl
    | system sys => exact Iff.rfl
    | projection i p =>
      constructor
      · intro valid t ht
        rcases mem_of_modify i (fun t => { t with projection := some p }) ht with ht | ht
        · exact valid t ht
        · exact valid { t with projection := some p } ht
      · intro valid t ht
        obtain ht | ⟨s, hs, rfl⟩ := mem_modify ht
        · exact valid t ht
        · exact valid s (List.mem_of_getElem? hs)

namespace Schema

open Declaring

/-! ## Validation -/

theorem runOn_validateTypes {w : World} (valid : w.schema.IsValid) :
    runOn validateTypes w = (.ok (), w) := by
  unfold validateTypes
  rw [runOn_bind_ok (runOn_schema w)]
  obtain ⟨_, rfl, run⟩ := forM_ok (R := Eq) (s := w) (l := w.schema.types)
    (f := fun t => if t.projection.isNone then ofOutcome t.validate else pure ⟨⟩) <| by
    rintro t ht _ rfl
    refine ⟨w, rfl, ?_⟩
    split
    · rw [runOn_ofOutcome, valid t ht]
    · rfl
  exact run

/-! ## Projections -/

theorem failsWith_describe (host : HostType) : FailsWith (fun _ => False) (describe host) := by
  refine failsWith_total fun w => ?_
  unfold describe
  rw [runOn_bind_ok (runOn_schema w)]
  split
  · split
    · exact ⟨_, _, rfl⟩
    · exact ⟨_, _, rfl⟩
  · exact ⟨_, _, rfl⟩

theorem failsWith_projectionOf (t : TypeDecl) : FailsWith (fun _ => False) (projectionOf t) := by
  unfold projectionOf recordClass
  refine failsWith_ite (fun _ => failsWith_pure _) fun entity => ?_
  refine failsWith_guard (fun scalar => entity scalar) fun _ => ?_
  refine failsWith_then (failsWith_mapM _ fun f _ => ?_) fun _ => failsWith_pure _
  exact failsWith_then (failsWith_describe _) fun _ => failsWith_pure _

/-- A valid type can be given its projection. -/
theorem settleProjection_succeeds {w : World} {i : Nat} (valid : w.schema.IsValid)
    (bound : i < w.schema.types.length) : ∃ u, runOn (settleProjection i) w = (.ok (), u) := by
  have place := List.getElem?_eq_getElem bound
  unfold settleProjection
  rw [runOn_bind_ok (runOn_typeAt i w), typeAt_of_getElem? place]
  split
  · rw [runOn_bind_ok (by rw [runOn_ofOutcome, valid _ (List.getElem_mem bound)])]
    obtain ⟨p, v, made⟩ := (failsWith_projectionOf w.schema.types[i]).succeeds w
    rw [runOn_bind_ok made]
    exact ⟨_, rfl⟩
  · exact ⟨w, rfl⟩

theorem settleProjections_succeeds {w : World} (valid : w.schema.IsValid) :
    ∃ u, runOn settleProjections w = (.ok (), u) := by
  unfold settleProjections
  rw [runOn_bind_ok (runOn_schema w)]
  obtain ⟨u, _, run⟩ := forM_ok (R := Arranges) (s := w) (f := settleProjection)
    (l := List.range w.schema.types.length) <| by
    intro i hi v steps
    have count : v.schema.types.length = w.schema.types.length := by
      simpa using congrArg List.length (Arranges.sameHeads steps)
    obtain ⟨u, run⟩ := settleProjection_succeeds ((Arranges.valid steps).2 valid)
      (i := i) (by rwa [count, ← List.mem_range])
    exact ⟨u, keeps_run (keeps_settleProjection i) run, run⟩
  exact ⟨u, run⟩

/-- What could be given its projections is valid, if every type had a field for its name. -/
theorem settleProjections_valid {w u : World} (h : runOn settleProjections w = (.ok (), u))
    (named : AllNamed w) (none : Unprojected w) : w.schema.IsValid := by
  obtain ⟨named, settled⟩ := settleProjections_ok h named none
  refine (Arranges.valid (keeps_run keeps_settleProjections h)).1 fun t ht => ?_
  unfold TypeDecl.validate
  cases scalar : t.isScalar with
  | true => simp [((settled t ht).scalar scalar).1]
  | false =>
    have full : t.fields ≠ [] := by
      intro empty
      have found := named t ht scalar
      rw [TypeDecl.findField?, empty] at found
      cases found
    simp [full]

/-! ## Arguments -/

theorem checkArguments_succeeds {w : World} {shape : ArgShape} (scalars : shape.IsScalar w)
    (owner : Owner) : ∃ u, Remembers w u ∧ runOn (checkArguments owner shape) w = (.ok (), u) := by
  obtain ⟨types, found, each⟩ := scalars
  unfold checkArguments
  rw [runOn_bind_ok (runOn_get w), found, runOn_bind_ok (runOn_ofOutcome _ w)]
  refine forM_ok fun a ha v steps => ?_
  obtain ⟨t, u, described⟩ := (failsWith_describe a.2).succeeds v
  refine ⟨u, keeps_run (keeps_describe remembers_adHoc a.2) described, ?_⟩
  obtain ⟨hosts, rfl⟩ := steps
  have scalar : t.isScalar = true := by
    rw [describe_ok described]
    exact each a ha
  show runOn (describe a.2 >>= _) _ = _
  rw [runOn_bind_ok described, if_neg (by simp [scalar])]
  rfl

theorem checkAllArguments_succeeds {w : World} (scalars : ScalarArguments w) :
    ∃ u, runOn checkAllArguments w = (.ok (), u) := by
  have check {v : World} (steps : Remembers w v) {shape : ArgShape} (owner : Owner)
      (is : shape.IsScalar w) :
      ∃ u, Remembers v u ∧ runOn (checkArguments owner shape) v = (.ok (), u) :=
    checkArguments_succeeds ((isScalar_remembers steps).2 is) owner
  unfold checkAllArguments
  rw [runOn_bind_ok (runOn_schema w)]
  obtain ⟨v, steps, fields⟩ := forM_ok (R := Remembers) (s := w) (l := w.schema.types)
    (f := fun t => t.fields.forM fun f => checkArguments (.field f.name t.name) f.shape) <| by
    intro t ht v steps
    refine forM_ok fun f hf v' further => ?_
    exact check (IsTrans.trans _ _ _ steps further) _ (scalars.fields t ht f hf)
  rw [runOn_bind_ok fields]
  obtain ⟨u, _, queries⟩ := forM_ok (R := Remembers) (s := v) (l := w.schema.queries)
    (f := fun q => checkArguments (.query q.name) q.shape) <| by
    intro q hq v' further
    exact check (IsTrans.trans _ _ _ steps further) _ (scalars.queries q hq)
  exact ⟨u, queries⟩

/-! ## The type system -/

theorem setUpInterface_succeeds {w : World} {sys : Interface.TypeSystem}
    (drawn : Interface.ofSchema w = .ok sys) : ∃ u, runOn setUpInterface w = (.ok (), u) := by
  unfold setUpInterface
  rw [runOn_bind_ok (runOn_get w), drawn, runOn_bind_ok (runOn_ofOutcome _ w),
    runOn_bind_ok (runOn_schema w)]
  have described (host : HostType) : FailsWith (fun _ => False)
      (do let _ ← describe host : Declaring PUnit) :=
    failsWith_then (failsWith_describe host) fun _ => failsWith_pure _
  obtain ⟨_, v, queries⟩ :=
    (failsWith_forM w.schema.queries fun q _ => described q.host).succeeds w
  obtain ⟨_, u, fields⟩ := (failsWith_forM w.schema.types fun t _ =>
    failsWith_forM t.fields fun f _ => described f.host).succeeds v
  rw [runOn_bind_ok queries, runOn_bind_ok fields]
  exact ⟨_, rfl⟩

/-! ## All stages -/

theorem runOn_addIntrospection {w v : World}
    (h : runOn addDescription (w.allowing true) = (.ok (), v)) :
    runOn addIntrospection w = (.ok (), v.allowing false) := by
  unfold addIntrospection
  rw [runOn_bind_ok (show runOn (allowReserved true) w = (.ok (), w.allowing true) from rfl),
    runOn_bind_ok (t := v) (a := ()) (by rw [runOn_tryCatch, h])]
  rfl

theorem runOn_complete_ok {w u : World} (isOpen : w.schema.completed = false)
    (h : runOn settle w = (.ok (), u)) : runOn complete w = (.ok (), u.closed) := by
  unfold complete
  rw [runOn_bind_ok (runOn_schema w), if_neg (by simp [isOpen]),
    runOn_bind_ok (t := u) (a := ()) (by rw [runOn_tryCatch, h])]
  rfl

end Schema

end EntityGraph
