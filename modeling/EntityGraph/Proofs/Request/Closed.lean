import EntityGraph.Proofs.Request.Lookup

/-!
# What fields lead to can be looked up if it is listed

The type of a field is reported as the declared type of its host type, else as that of the scalar
that produces it, else as a scalar type that is not declared anywhere. Types of the last sort are
not listed, and neither are those of scalars whose names declared types have taken. Every other type
is found under the name under which it was reported; a type that is not listed is a scalar, and what
is found under its name, if anything, is another type.
-/

namespace EntityGraph

namespace Schema

variable {s : Schema}

/-- What a type that is not listed looks like, and what is found under its name. -/
theorem unlisted {host : HostType} (missing : s.typeRefOf host ∉ s.allTypes) :
    (s.typeOf host).isScalar = true ∧ (s.typeOf host).fields = []
      ∧ ∀ r, s.listed? (s.typeOf host).name = some r → r ∈ s.allTypes ∧ r ≠ s.typeRefOf host
        ∧ (s.resolve r).name = (s.typeOf host).name := by
  have undeclared : s.findType? host = none := by
    rw [typeRefOf_mem_allTypes, not_or] at missing
    simpa using missing.1
  refine ⟨?_, ?_, fun r found => ?_⟩
  · unfold typeOf typeRefOf
    rw [undeclared]
    cases s.scalarOf? host <;> rfl
  · unfold typeOf typeRefOf
    rw [undeclared]
    cases s.scalarOf? host <;> rfl
  · have among := List.mem_of_find?_eq_some found
    refine ⟨among, ?_, ?_⟩
    · rintro rfl
      exact missing among
    · simpa using List.find?_some found

/-- A type that is listed is the first one with its name, if it is declared or no scalar lacks a
name. -/
theorem listed?_typeOf (distinct : Distinct s) {host : HostType}
    (listed : s.typeRefOf host ∈ s.allTypes) (named : (s.findType? host).isSome ∨ s.NamesScalars) :
    s.listed? (s.typeOf host).name = some (s.typeRefOf host) := by
  rcases named with declared | named
  · obtain ⟨i, found⟩ := Option.isSome_iff_exists.1 declared
    obtain ⟨bound, _⟩ := List.findIdx?_eq_some_iff_getElem.1 found
    have is : s.typeRefOf host = .declared i := by
      unfold typeRefOf
      rw [found]
    unfold typeOf
    rw [is]
    exact listed?_declared distinct bound
  · exact listed?_of_mem distinct named listed

end Schema

namespace World

variable {w : World} {ss : List Selected}

/-- A type is described with its fields, in their order, and these with their types. -/
theorem described_fields (w : World) (r : TypeRef) (ss : List Selected) :
    w.described true .entityType (.typeRef r) [.field "fields" [] [.field "type" [] ss]]
      = [("fields", .list ((w.schema.resolve r).fields.map fun f =>
          .record "__Field" [("type", w.typeRecord (w.schema.typeRefOf f.host) ss)]))] := by
  have empty : w.described true .entityType (.typeRef r) [.field "fields" [] [.field "type" [] ss]]
      = [("fields", (Reading.value w (.member "fields") (.typeRef r)).mapRecords fun u =>
          .record "__Field" (w.described true .field u [.field "type" [] ss]))] := rfl
  rw [empty]
  cases r with
  | declared i =>
    let t := w.schema.types.getD i default
    have every : (List.range t.fields.length).filter (fun j => (t.fields[j]?).any fun _ => true)
        = List.range t.fields.length := by
      rw [List.filter_eq_self]
      intro j hj
      rw [List.getElem?_eq_getElem (List.mem_range.1 hj)]
      rfl
    have read : Reading.value w (.member "fields") (.typeRef (.declared i))
        = .list (((List.range t.fields.length).filter fun j => (t.fields[j]?).any fun _ => true).map
          (.fieldRef i)) := rfl
    have each : (List.range t.fields.length).map (fun j => Value.record "__Field"
          [("type", w.typeRecord (w.schema.typeRefOf (t.fields.getD j default).host) ss)])
        = t.fields.map fun f =>
          .record "__Field" [("type", w.typeRecord (w.schema.typeRefOf f.host) ss)] := by
      refine List.ext_getElem (by simp) fun j _ bound => ?_
      rw [List.length_map] at bound
      simp [List.getElem?_eq_getElem bound]
    rw [read, every]
    show [("fields", Value.list (((List.range t.fields.length).map (Value.fieldRef i)).map _))] = _
    rw [List.map_map]
    exact congrArg (fun vs => [("fields", Value.list vs)]) each
  | scalar i => rfl
  | adHoc host => rfl

/-- The description is closed but for types that are not listed. The records of the listed types are
given out as they are, and for each of their fields the record of the type that describes its
values. This type is listed if it is declared, or if it is that of a scalar and no declared type has
its name. If it is declared, or listed and no scalar is registered with the empty name, the query
for a type gives its record for the name under which it was reported. If it is not listed it is a
scalar without fields, and the query gives nothing for its name, or another type. -/
theorem introspection_closed (reached : w.IsReached) (completed : w.schema.completed = true)
    (apart : Apart ss) (composes : w.Composes .entityType ss) :
    (∀ context used, ∃ after,
      runOn (w.executeQuery context "__schema" [] [.field "types" [] ss] .all) used
        = (.ok (.record "__Schema"
            [("types", .list (w.schema.allTypes.map fun r => w.typeRecord r ss))]), after))
    ∧ (∀ context used, ∃ after,
      runOn (w.executeQuery context "__schema" []
        [.field "types" [] [.field "fields" [] [.field "type" [] ss]]] .all) used
        = (.ok (.record "__Schema" [("types", .list (w.schema.allTypes.map fun r =>
            .record "__Type" [("fields", .list ((w.schema.resolve r).fields.map fun f =>
              .record "__Field" [("type", w.typeRecord (w.schema.typeRefOf f.host) ss)]))]))]),
          after))
    ∧ ∀ r ∈ w.schema.allTypes, ∀ f ∈ (w.schema.resolve r).fields,
      let s := w.schema
      let reported := s.typeRefOf f.host
      let name := (s.resolve reported).name
      (reported ∈ s.allTypes ↔ (s.findType? f.host).isSome
        ∨ (s.scalarOf? f.host).isSome ∧ name ∉ s.types.map (·.name))
      ∧ (reported ∈ s.allTypes → (s.findType? f.host).isSome ∨ s.NamesScalars →
        ∀ context used, used.trail.IsSettled → ∃ after,
          runOn (w.executeQuery context "__type" [("name", .str name)] ss .all) used
            = (.ok (w.typeRecord reported ss), after))
      ∧ (reported ∉ s.allTypes →
        (s.resolve reported).isScalar = true ∧ (s.resolve reported).fields = []
        ∧ ∀ context used, used.trail.IsSettled → ∃ answer after,
          runOn (w.executeQuery context "__type" [("name", .str name)] ss .all) used
            = (.ok answer, after)
          ∧ (answer = .none ∨ ∃ other ∈ s.allTypes, other ≠ reported
            ∧ (s.resolve other).name = name ∧ answer = w.typeRecord other ss)) := by
  obtain ⟨selected, asks⟩ := composes.asks reached completed apart
  refine ⟨fun context used => ?_, fun context used => ?_, fun r _ f _ => ⟨?_,
    fun listed named context used settled => ?_, fun missing => ?_⟩⟩
  · have types : Asks .schema (.field "types" [] ss) := .parts rfl rfl selected asks
    obtain ⟨after, run⟩ := schema_answered reached completed (apart.single "types" [])
      (by simpa using types) (by simp) context used
    exact ⟨after, run.trans (by rw [described_types])⟩
  · have type : Asks .field (.field "type" [] ss) := .parts rfl rfl selected asks
    have fields : Asks .entityType (.field "fields" [] [.field "type" [] ss]) :=
      .parts rfl rfl (by simp) (by simpa using type)
    have types : Asks .schema (.field "types" [] [.field "fields" [] [.field "type" [] ss]]) :=
      .parts rfl rfl (by simp) (by simpa using fields)
    have alone := ((apart.single "type" []).single "fields" []).single "types" []
    obtain ⟨after, run⟩ :=
      schema_answered reached completed alone (by simpa using types) (by simp) context used
    refine ⟨after, run.trans ?_⟩
    simp only [described_types, typeRecord, described_fields]
  · exact w.schema.typeRefOf_mem_allTypes f.host
  · obtain ⟨after, run⟩ := type_answered reached completed apart asks selected context
      (w.schema.typeOf f.host).name settled
    rw [Schema.listed?_typeOf reached.distinct listed named] at run
    exact ⟨after, run⟩
  · obtain ⟨scalar, bare, found⟩ := Schema.unlisted missing
    refine ⟨scalar, bare, fun context used settled => ?_⟩
    obtain ⟨after, run⟩ := type_answered reached completed apart asks selected context
      (w.schema.typeOf f.host).name settled
    refine ⟨_, after, run, ?_⟩
    cases other : w.schema.listed? (w.schema.typeOf f.host).name with
    | none => exact .inl rfl
    | some r =>
      obtain ⟨among, differs, same⟩ := found r other
      exact .inr ⟨r, among, differs, same, rfl⟩

/-- A complete schema of users, each with data of a host type that is not declared and produced by
no scalar, and with another user. -/
def storing : World :=
  let context : Param := ⟨0, "context"⟩
  let user : HostType := .declared "User"
  let itself : Value :=
    .ofTree (.lambda [context, QueryDecl.sampleEntity] (.param QueryDecl.sampleEntity))
  ((Session.start default context 8).after
    [.addType user none "",
      .addField user "blob" itself (some (.builtin .bytes)) false "",
      .addField user "best" itself (some user) false "",
      .addQuery .unmodified "user" user (.ofTree (.lambda [context] (.lit (.str "x")))) "",
      .complete]).world

theorem storing_isReached : storing.IsReached := ⟨default, _, _, _, rfl⟩

theorem storing_user_closed :
    ∃ after, runOn (storing.executeQuery .none "__type" [("name", .str "User")] sampleTypeFields
        .all) ⟨0, storing.trail⟩
      = (.ok (storing.typeRecord (storing.schema.typeRefOf (.declared "User")) sampleTypeFields),
          after) := by
  -- the schema itself is large, so only the facts about it that count are given to the proof
  have closed (w : World) (reached : w.IsReached) (completed : w.schema.completed = true)
      (composes : (runOn (Compose.plan w (w.schema.typeOf .entityType) false sampleTypeFields)
        w.trail).1.isOk = true) (unassigned : w.memory.isEmpty = true)
      (leads : (w.schema.allTypes.any fun r => (w.schema.resolve r).fields.any fun f =>
        f.host == .declared "User") = true)
      (declared : (w.schema.findType? (.declared "User")).isSome = true)
      (named : ((w.schema.typeOf (.declared "User")).name == "User") = true) :
      ∃ after, runOn (w.executeQuery .none "__type" [("name", .str "User")] sampleTypeFields .all)
        ⟨0, w.trail⟩
        = (.ok (w.typeRecord (w.schema.typeRefOf (.declared "User")) sampleTypeFields), after) := by
    obtain ⟨r, listed, leads⟩ := List.any_eq_true.1 leads
    obtain ⟨f, field, is⟩ := List.any_eq_true.1 leads
    obtain ⟨_, _, fields⟩ := introspection_closed reached completed apart_sampleTypeFields
      (composes_of_isOk composes)
    obtain ⟨listed, lookedUp, _⟩ := fields r listed f field
    rw [beq_iff_eq.1 is] at listed lookedUp
    have answered := lookedUp (listed.2 (.inl declared)) (.inl declared) .none ⟨0, w.trail⟩
      (isSettled_of_unassigned unassigned)
    rwa [show (w.schema.resolve (w.schema.typeRefOf (.declared "User"))).name = "User" from
      beq_iff_eq.1 named] at answered
  exact closed _ storing_isReached (by decide +kernel) (by decide +kernel) (by decide +kernel)
    (by decide +kernel) (by decide +kernel) (by decide +kernel)

/-- The type of a field whose host type nothing describes is reported, but it is neither listed nor
found. -/
theorem unlisted_type_reported :
    storing.IsReached ∧ storing.schema.completed = true
      ∧ "bytes" ∈ namesAlong storing ["types", "fields", "type"]
      ∧ "bytes" ∉ namesAlong storing ["types"]
      ∧ (match (runOn (storing.executeQuery .none "__type" [("name", .str "bytes")]
          [.field "name" [] []] .all) ⟨0, storing.trail⟩).1 with
        | .ok v => v.isNone
        | .error _ => false) = true :=
  ⟨storing_isReached, by decide +kernel, by decide +kernel, by decide +kernel, by decide +kernel⟩

end World

end EntityGraph
