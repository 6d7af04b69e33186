import EntityGraph.Proofs.Schema.Described

/-!
# The list of all types

A schema lists its declared types and after them the types of its scalars, except for those whose
names declared types have taken. This module says what the list holds, which type is the first one
with a name, and which of the types that fields lead to are in it.

Two scalars never have one name in the registry. One that is registered with the empty name is
described under the name of its host type, though, and this may be the name of another scalar. It is
the only way in which two types of the list can come to have one name.
-/

namespace EntityGraph

namespace Schema

variable {s : Schema}

/-- Whether no scalar is registered with the empty name. -/
def NamesScalars (s : Schema) : Prop := ∀ e ∈ s.scalars, e.name.isEmpty = false

/-- The list of all types holds the declared ones, and after them those of the scalars whose names
no declared type has taken. -/
theorem resolve_allTypes (s : Schema) :
    s.allTypes.map s.resolve = s.types ++ (s.scalars.map (·.typeDecl)).filter fun t =>
      !(s.types.map (·.name)).contains t.name := by
  have declared : ((List.range s.types.length).map TypeRef.declared).map s.resolve = s.types := by
    refine List.ext_getElem (by simp) fun i _ bound => ?_
    simp [resolve, List.getElem?_eq_getElem bound]
  have scalars : ((List.range s.scalars.length).map TypeRef.scalar).map s.resolve
      = s.scalars.map (·.typeDecl) := by
    refine List.ext_getElem (by simp) fun i _ bound => ?_
    have bound : i < s.scalars.length := by simpa using bound
    simp [resolve, List.getElem?_eq_getElem bound]
  unfold allTypes
  rw [List.map_append, declared, ← scalars]
  simp only [List.filter_map]
  rfl

/-- Types of scalars have different names if no scalar lacks one. -/
theorem typeDecl_names (named : s.NamesScalars) :
    (s.scalars.map (·.typeDecl)).map (·.name) = s.scalars.map (·.name) := by
  rw [List.map_map]
  refine List.map_congr_left fun e he => ?_
  show (if e.name.isEmpty then e.host.name else e.name) = e.name
  rw [named e he]
  rfl

/-- No two types of the list have one name, as long as no scalar is registered with the empty
name. -/
theorem allTypes_nodup (distinct : Distinct s) (named : s.NamesScalars) :
    ((s.allTypes.map s.resolve).map (·.name)).Nodup := by
  rw [resolve_allTypes, List.map_append, List.nodup_append]
  refine ⟨distinct.types.names, ?_, fun n hn n' hn' => ?_⟩
  · have all : ((s.scalars.map (·.typeDecl)).map (·.name)).Nodup := by
      rw [typeDecl_names named]
      exact distinct.scalars
    exact all.sublist (List.filter_sublist.map _)
  · obtain ⟨t, ht, rfl⟩ := List.mem_map.1 hn'
    have free := (List.mem_filter.1 ht).2
    rintro rfl
    rw [Bool.not_eq_true', ← Bool.not_eq_true, List.contains_iff_mem] at free
    exact free hn

/-- The first type of the list that has a name. -/
def listed? (s : Schema) (name : String) : Option TypeRef :=
  s.allTypes.find? fun r => (s.resolve r).name == name

/-- A declared type is the first one with its name. -/
theorem listed?_declared (distinct : Distinct s) {i : Nat} (bound : i < s.types.length) :
    s.listed? (s.resolve (.declared i)).name = some (.declared i) := by
  have nodup : (((List.range s.types.length).map TypeRef.declared).map
      fun r => (s.resolve r).name).Nodup := by
    have names := distinct.types.names
    have same : s.types.map (·.name)
        = ((List.range s.types.length).map TypeRef.declared).map fun r => (s.resolve r).name := by
      refine List.ext_getElem (by simp) fun j bound _ => ?_
      have bound : j < s.types.length := by simpa using bound
      simp [resolve, List.getElem?_eq_getElem bound]
    rwa [same] at names
  unfold listed? allTypes
  dsimp only
  rw [List.find?_append, find?_of_nodup nodup (List.mem_map.2 ⟨i, by simpa using bound, rfl⟩)]
  rfl

/-- A type of the list is the first one with its name, as long as no scalar lacks one. -/
theorem listed?_of_mem (distinct : Distinct s) (named : s.NamesScalars) {r : TypeRef}
    (listed : r ∈ s.allTypes) : s.listed? (s.resolve r).name = some r := by
  have nodup := allTypes_nodup distinct named
  rw [List.map_map] at nodup
  exact find?_of_nodup nodup listed

/-- The type that describes values of a host type is in the list if it is declared, or if it is that
of a scalar and no declared type has its name. -/
theorem typeRefOf_mem_allTypes (s : Schema) (host : HostType) :
    s.typeRefOf host ∈ s.allTypes ↔ (s.findType? host).isSome
      ∨ (s.scalarOf? host).isSome ∧ (s.typeOf host).name ∉ s.types.map (·.name) := by
  unfold typeOf typeRefOf allTypes
  dsimp only
  rw [List.mem_append]
  cases declared : s.findType? host with
  | some i =>
    obtain ⟨bound, _⟩ := List.findIdx?_eq_some_iff_getElem.1 declared
    simp [bound]
  | none =>
    cases scalar : s.scalarOf? host with
    | none => simp
    | some i =>
      obtain ⟨bound, _⟩ := List.findIdx?_eq_some_iff_getElem.1 scalar
      simp [bound]

end Schema

/-- The standard scalars come first in the registry of a schema. -/
theorem World.IsReached.scalars_standard {w : World} (h : w.IsReached) :
    ∃ more, w.schema.scalars = Registry.standard ++ more := by
  refine reached_induction (P := fun w => ∃ more, w.schema.scalars = Registry.standard ++ more)
    ?_ ?_ ?_ h
  · exact fun _ _ _ => ⟨[], (List.append_nil _).symm⟩
  · rintro w w' step ⟨more, ih⟩
    cases step with
    | addition step => exact ⟨more, step.grown.scalars.trans ih⟩
    | left t => exact ⟨more, ih⟩
    | scalar e =>
      refine ⟨more ++ [e], ?_⟩
      show w.schema.scalars ++ [e] = _
      rw [ih, List.append_assoc]
  · rintro w u _ _ ⟨more, ih⟩ settled
    have steps : Settles w u := keeps_run Schema.keeps_settle settled
    exact ⟨more, steps.grown.scalars.trans ih⟩

end EntityGraph
